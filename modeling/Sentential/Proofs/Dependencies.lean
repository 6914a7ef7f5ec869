import Mathlib
import Sentential.Proofs.Exploration

/-! What a step rests on. References are followed without a look at what has been met before, so
that there is an answer rests on what they are. Where there is one, it is the transitive closure of
the references. In a proof that requests lead to, steps refer to steps with lower numbers, so no
chain of references is longer than the proof, and there always is one. -/

namespace Sentential.Proof

/-- Step `i` refers to step `j`. -/
def RefersTo (p : Proof) (i j : Int) : Prop :=
  ∃ s ∈ p.steps, s.index = i ∧ j ∈ s.references.numbers

/-- The step that is found under the number `i` refers to `j`. -/
def LeadsTo (p : Proof) (i j : Int) : Prop :=
  ∃ s, p.step? i = some s ∧ j ∈ s.references.numbers

/-- Adds a step and what it rests on, as far as `f` tells, to what was found before. -/
def gather (f : Int → Option (List Int)) (found : List Int) (n : Int) : Option (List Int) := do
  let further ← f n
  return (n :: further).foldr List.insert found

/-- What comes of gathering from the steps with the given numbers. -/
structure Gathered (f : Int → Option (List Int)) (numbers found all : List Int) : Prop where
  answered : ∀ n ∈ numbers, ∃ further, f n = some further
  mem : ∀ j, j ∈ all ↔
    j ∈ found ∨ ∃ n ∈ numbers, j = n ∨ ∃ further, f n = some further ∧ j ∈ further
  nodup : found.Nodup → all.Nodup

section

variable {f : Int → Option (List Int)} {numbers found all : List Int}

theorem gather_eq {n : Int} {further : List Int} (hn : f n = some further) :
    gather f found n = some ((n :: further) ∪ found) := by
  rw [gather, hn]
  rfl

theorem exists_gather (h : ∀ n ∈ numbers, ∃ further, f n = some further) (found : List Int) :
    ∃ all, numbers.foldlM (gather f) found = some all := by
  induction numbers generalizing found with
  | nil => exact ⟨found, rfl⟩
  | cons n rest ih =>
    obtain ⟨further, hn⟩ := h n (by simp)
    rw [List.foldlM_cons, gather_eq hn]
    exact ih (fun m hm => h m (by simp [hm])) _

theorem foldlM_gather_mono {g : Int → Option (List Int)}
    (hfg : ∀ n further, f n = some further → g n = some further)
    (h : numbers.foldlM (gather f) found = some all) :
    numbers.foldlM (gather g) found = some all := by
  induction numbers generalizing found with
  | nil => exact h
  | cons n rest ih =>
    rw [List.foldlM_cons] at h ⊢
    obtain ⟨next, hnext, hrest⟩ := Option.bind_eq_some_iff.mp h
    obtain ⟨further, hn, -⟩ := Option.bind_eq_some_iff.mp hnext
    rw [gather_eq (hfg n further hn), ← gather_eq hn, hnext]
    exact ih hrest

theorem gathered_of_foldlM (h : numbers.foldlM (gather f) found = some all) :
    Gathered f numbers found all := by
  induction numbers generalizing found with
  | nil =>
    cases h
    exact ⟨by simp, by simp, id⟩
  | cons n rest ih =>
    rw [List.foldlM_cons] at h
    obtain ⟨next, hnext, hrest⟩ := Option.bind_eq_some_iff.mp h
    obtain ⟨further, hn, -⟩ := Option.bind_eq_some_iff.mp hnext
    obtain rfl : (n :: further) ∪ found = next := Option.some.inj ((gather_eq hn).symm.trans hnext)
    have hgathered := ih hrest
    refine ⟨?_, fun j => ?_, fun hnodup => hgathered.nodup (hnodup.union _)⟩
    · rw [List.forall_mem_cons]
      exact ⟨⟨further, hn⟩, hgathered.answered⟩
    · rw [hgathered.mem, List.mem_union_iff, List.mem_cons, List.exists_mem_cons_iff]
      simp only [hn, Option.some.injEq, exists_eq_left']
      exact or_assoc.trans or_left_comm

end

variable {p : Proof} {i j : Int}

theorem leadsTo_iff {s : Step} (hs : p.step? i = some s) :
    p.LeadsTo i j ↔ j ∈ s.references.numbers := by
  simp [LeadsTo, hs]

theorem not_leadsTo (hnone : p.step? i = none) : ¬p.LeadsTo i j := by
  simp [LeadsTo, hnone]

theorem restsOnWithin_of_none (hnone : p.step? i = none) (depth : Nat) :
    p.restsOnWithin (depth + 1) i = some [] := by
  rw [restsOnWithin, hnone]

theorem restsOnWithin_of_step {s : Step} (hs : p.step? i = some s) (depth : Nat) :
    p.restsOnWithin (depth + 1) i =
      s.references.numbers.foldlM (gather (p.restsOnWithin depth)) [] := by
  rw [restsOnWithin, hs]
  rfl

/-- An answer stays the same when more steps in a row may be taken. -/
theorem restsOnWithin_mono {depth more : Nat} (hle : depth ≤ more) {found : List Int}
    (h : p.restsOnWithin depth i = some found) : p.restsOnWithin more i = some found := by
  induction depth generalizing more i found with
  | zero => cases h
  | succ depth ih =>
    obtain ⟨more, rfl⟩ := Nat.exists_eq_add_of_le' (Nat.one_le_of_lt hle)
    cases hs : p.step? i with
    | none =>
      rw [restsOnWithin_of_none hs] at h ⊢
      exact h
    | some s =>
      rw [restsOnWithin_of_step hs] at h ⊢
      exact foldlM_gather_mono (fun n further => ih (Nat.le_of_succ_le_succ hle)) h

/-- Whatever the references are: an answer names each step once, and these are the steps that chains
of references lead to. -/
structure IsAnswer (p : Proof) (i : Int) (found : List Int) : Prop where
  nodup : found.Nodup
  mem : ∀ j, j ∈ found ↔ Relation.TransGen p.LeadsTo i j

theorem isAnswer_nil (hnone : p.step? i = none) : p.IsAnswer i [] where
  nodup := .nil
  mem j := by
    rw [Relation.TransGen.head'_iff]
    simp [not_leadsTo hnone]

theorem isAnswer_of_gathered {f : Int → Option (List Int)} {found : List Int} {s : Step}
    (hf : ∀ n further, f n = some further → p.IsAnswer n further) (hs : p.step? i = some s)
    (h : Gathered f s.references.numbers [] found) : p.IsAnswer i found where
  nodup := h.nodup .nil
  mem j := by
    rw [h.mem, Relation.TransGen.head'_iff]
    simp only [List.not_mem_nil, false_or, leadsTo_iff hs]
    refine exists_congr fun n => and_congr_right fun hn => ?_
    obtain ⟨further, hfurther⟩ := h.answered n hn
    rw [Relation.reflTransGen_iff_eq_or_transGen, ← (hf n further hfurther).mem]
    simp [hfurther]

theorem isAnswer_of_restsOnWithin {depth : Nat} {found : List Int}
    (h : p.restsOnWithin depth i = some found) : p.IsAnswer i found := by
  induction depth generalizing i found with
  | zero => cases h
  | succ depth ih =>
    cases hs : p.step? i with
    | none =>
      rw [restsOnWithin_of_none hs] at h
      cases h
      exact isAnswer_nil hs
    | some s =>
      rw [restsOnWithin_of_step hs] at h
      exact isAnswer_of_gathered (fun _ _ => ih) hs (gathered_of_foldlM h)

theorem mem_of_step? {s : Step} (hs : p.step? i = some s) : s ∈ p.steps ∧ s.index = i :=
  ⟨List.mem_of_find?_eq_some hs, by simpa using List.find?_some hs⟩

namespace Orderly

theorem step?_bounds (h : Orderly p) {s : Step} (hs : p.step? i = some s) :
    1 ≤ i ∧ i < p.next := by
  obtain ⟨hmem, rfl⟩ := mem_of_step? hs
  exact h.index_bounds hmem

theorem leadsTo_iff_refersTo (h : Orderly p) : p.LeadsTo i j ↔ p.RefersTo i j := by
  constructor
  · rintro ⟨s, hs, hj⟩
    obtain ⟨hmem, hindex⟩ := mem_of_step? hs
    exact ⟨s, hmem, hindex, hj⟩
  · rintro ⟨s, hs, rfl, hj⟩
    exact ⟨s, h.step?_index hs, hj⟩

theorem exists_step (h : Orderly p) (hlow : 1 ≤ j) (hhigh : j < p.next) :
    ∃ s ∈ p.steps, s.index = j := by
  have hnext := h.next
  obtain ⟨k, rfl⟩ : ∃ k : Nat, j = k + 1 := ⟨(j - 1).toNat, by omega⟩
  have hk : k < p.steps.length := by omega
  exact ⟨p.steps[k], List.getElem_mem hk, h.numbers k _ (List.getElem?_eq_getElem hk)⟩

/-- References go back to steps of the proof. -/
theorem refersTo_bounds (h : Orderly p) (hij : p.RefersTo i j) : 1 ≤ j ∧ j < i ∧ i < p.next := by
  obtain ⟨s, hs, rfl, hj⟩ := hij
  have hbounds := h.index_bounds hs
  cases hcalled : s.isCalledPremise with
  | true =>
    rw [h.unsupported s hs hcalled] at hj
    cases hj
  | false =>
    obtain ⟨numbers, hnumbers, -, hback⟩ := h.supported s hs hcalled
    rw [hnumbers] at hj
    have hback := hback j hj
    omega

theorem transGen_bounds (h : Orderly p) (hij : Relation.TransGen p.RefersTo i j) :
    1 ≤ j ∧ j < i ∧ i < p.next := by
  induction hij with
  | single hij => exact h.refersTo_bounds hij
  | tail _ hjk ih =>
    have hbounds := h.refersTo_bounds hjk
    omega

/-- Numbers go down along a chain and stay positive, so from step `i` no chain has more than `i`
steps. -/
theorem exists_restsOnWithin (h : Orderly p) {depth : Nat} (hi : i ≤ depth) :
    ∃ found, p.restsOnWithin (depth + 1) i = some found := by
  induction depth generalizing i with
  | zero =>
    cases hs : p.step? i with
    | none => exact ⟨[], restsOnWithin_of_none hs 0⟩
    | some s =>
      have hbounds := h.step?_bounds hs
      omega
  | succ depth ih =>
    cases hs : p.step? i with
    | none => exact ⟨[], restsOnWithin_of_none hs _⟩
    | some s =>
      rw [restsOnWithin_of_step hs]
      refine exists_gather (fun n hn => ih ?_) []
      have hbounds := h.refersTo_bounds (h.leadsTo_iff_refersTo.mp ⟨s, hs, hn⟩)
      omega

theorem exists_answer (h : Orderly p) (i : Int) :
    ∃ found, ∀ depth, p.steps.length < depth → p.restsOnWithin depth i = some found := by
  obtain ⟨found, hfound⟩ : ∃ found, p.restsOnWithin (p.steps.length + 1) i = some found := by
    cases hs : p.step? i with
    | none => exact ⟨[], restsOnWithin_of_none hs _⟩
    | some s =>
      have hbounds := h.step?_bounds hs
      have hnext := h.next
      exact h.exists_restsOnWithin (by omega)
  exact ⟨found, fun depth hdepth => restsOnWithin_mono hdepth hfound⟩

end Orderly

theorem perm_restsOn {found : List Int}
    (h : p.restsOnWithin (p.steps.length + 1) i = some found) : (p.restsOn i).Perm found := by
  rw [restsOn, h]
  exact List.mergeSort_perm _ _

theorem pairwise_restsOn (hnodup : (p.restsOn i).Nodup) : (p.restsOn i).Pairwise (· < ·) := by
  have hle : (p.restsOn i).Pairwise (· ≤ ·) := List.pairwise_mergeSort' (· ≤ ·) _
  exact (hle.and hnodup).imp fun hab => lt_of_le_of_ne hab.1 hab.2

/-- Whatever was asked for, and for whatever number, references are followed to their ends, and the
chains are no longer than the proof. What is found is what one or more references lead to, steps of
the proof with lower numbers, and nothing if there is no such step; it is listed in increasing
order. -/
theorem rests_on_transitive_references (requests : List Request) (i : Int) :
    let p := requests.foldl serve .empty
    ∃ found, (∀ depth, p.steps.length < depth → p.restsOnWithin depth i = some found) ∧
      (p.restsOn i).Perm found ∧ (p.restsOn i).Pairwise (· < ·) ∧
      (∀ j, j ∈ p.restsOn i ↔ Relation.TransGen p.RefersTo i j) ∧
      (∀ j ∈ p.restsOn i, j < i ∧ ∃ s ∈ p.steps, s.index = j) ∧
      ((∀ s ∈ p.steps, s.index ≠ i) → p.restsOn i = []) := by
  intro p
  have hp : Orderly p :=
    List.foldlRecOn requests serve orderly_empty fun _ hq request _ => hq.serve request
  obtain ⟨found, hfound⟩ := hp.exists_answer i
  have hlast := hfound (p.steps.length + 1) (Nat.lt_succ_self _)
  have hanswer := isAnswer_of_restsOnWithin hlast
  have hperm := perm_restsOn hlast
  have hrefers : p.LeadsTo = p.RefersTo := by
    funext i j
    exact propext hp.leadsTo_iff_refersTo
  have hmem : ∀ j, j ∈ p.restsOn i ↔ Relation.TransGen p.RefersTo i j := by
    intro j
    rw [hperm.mem_iff, ← hrefers]
    exact hanswer.mem j
  refine ⟨found, hfound, hperm, pairwise_restsOn (hperm.nodup_iff.mpr hanswer.nodup), hmem,
    fun j hj => ?_, fun hnone => ?_⟩
  · have hbounds := hp.transGen_bounds ((hmem j).mp hj)
    exact ⟨hbounds.2.1, hp.exists_step hbounds.1 (by omega)⟩
  · rw [List.eq_nil_iff_forall_not_mem]
    intro j hj
    obtain ⟨n, ⟨s, hs, hindex, -⟩, -⟩ := Relation.TransGen.head'_iff.mp ((hmem j).mp hj)
    exact hnone s hs hindex

end Sentential.Proof
