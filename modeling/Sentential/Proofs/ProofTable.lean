import Mathlib
import Sentential.Proofs.Agreement
import Sentential.Proofs.Exploration

/-! The columns of a proof's table. Premises, derived steps and the conclusion are taken one after
the other, and what has the text of a column that is there already is left out. Steps that are
premises are not looked at, as their texts are those of the premises; a derived step has a text that
no step before it has, but a premise may come after it that has the same. So every text of the proof
has one column, in an order that the proof determines. -/

namespace Sentential

theorem Content.shown_inj {c d : Content} : c.shown = d.shown ↔ c.text = d.text :=
  String.ofList_inj

namespace Table

variable {columns contents : List Content}

theorem addNew_append (columns contents more : List Content) :
    addNew columns (contents ++ more) = addNew (addNew columns contents) more := by
  induction contents generalizing columns with
  | nil => rfl
  | cons c rest ih =>
    rw [List.cons_append, addNew, addNew]
    split
    · exact ih _
    · exact ih _

theorem any_text_iff {c : Content} :
    (columns.any fun d => d.text = c.text) = true ↔ c.shown ∈ columns.map Content.shown := by
  simp [Content.shown_inj]

theorem nodup_shown_addNew (h : (columns.map Content.shown).Nodup) :
    ((addNew columns contents).map Content.shown).Nodup := by
  induction contents generalizing columns with
  | nil => exact h
  | cons c rest ih =>
    rw [addNew]
    split
    · exact ih h
    · next hnew =>
      rw [any_text_iff] at hnew
      refine ih ?_
      rw [List.map_append]
      exact h.append (List.nodup_singleton _) (by simpa using hnew)

theorem mem_shown_addNew {text : String} : text ∈ (addNew columns contents).map Content.shown ↔
    text ∈ columns.map Content.shown ∨ text ∈ contents.map Content.shown := by
  induction contents generalizing columns with
  | nil => simp [addNew]
  | cons c rest ih =>
    rw [addNew, List.map_cons, List.mem_cons]
    split
    · next hthere =>
      rw [any_text_iff] at hthere
      have hsame : text = c.shown → text ∈ columns.map Content.shown := fun heq => heq ▸ hthere
      rw [ih, ← or_assoc, or_iff_left_of_imp hsame]
    · rw [ih, List.map_append, List.mem_append, or_assoc]
      simp

/-- Of contents with different texts those are added whose text is not there yet. -/
theorem shown_addNew (columns : List Content) (h : (contents.map Content.shown).Nodup) :
    (addNew columns contents).map Content.shown = columns.map Content.shown ++
      (contents.map Content.shown).filter (· ∉ columns.map Content.shown) := by
  induction contents generalizing columns with
  | nil => simp [addNew]
  | cons c rest ih =>
    obtain ⟨hc, hrest⟩ := List.nodup_cons.mp h
    rw [addNew, List.map_cons]
    by_cases hthere : c.shown ∈ columns.map Content.shown
    · rw [if_pos (any_text_iff.mpr hthere), ih _ hrest,
        List.filter_cons_of_neg (by simpa using hthere)]
    · rw [if_neg (by rwa [any_text_iff]), ih _ hrest,
        List.filter_cons_of_pos (by simpa using hthere), List.map_append, List.append_assoc]
      -- the head is a column now, but no text of the rest is that of the head
      refine congrArg _ (congrArg _ (List.filter_congr fun text htext => ?_))
      have hne : text ≠ c.shown := fun heq => hc (heq ▸ htext)
      simp [hne]

end Table

namespace Proof

variable {p : Proof}

def premiseTexts (p : Proof) : List String :=
  p.premises.map Sentence.shown

def derivedTexts (p : Proof) : List String :=
  (p.steps.filter fun s => !s.isPremise).map fun s => s.content.shown

def goalTexts (p : Proof) : List String :=
  p.conclusion.toList.map Sentence.shown

theorem nodup_premiseTexts (h : Orderly p) : p.premiseTexts.Nodup := by
  have hmap : p.premiseTexts = (p.premises.map Sentence.text).map String.ofList := by
    simp [premiseTexts, Sentence.shown]
  rw [hmap]
  exact h.distinct.map fun _ _ => String.ofList_inj.mp

theorem WellBuilt.isCalledPremise_eq (h : WellBuilt p) {s : Step} (hs : s ∈ p.steps) :
    s.isCalledPremise = s.isPremise := by
  cases h.built.grounded s hs with
  | premise => rfl
  | @derived _ _ rule =>
    simp [Step.isCalledPremise, Step.isPremise, Justification.text, rule.name_ne_premise]

theorem Reachable.nodup_derivedTexts (h : Reachable p) : p.derivedTexts.Nodup := by
  rw [derivedTexts, List.Nodup, List.pairwise_map]
  refine (h.orderly.fresh.filter _).imp_of_mem fun {s t} _ ht hfresh => ?_
  obtain ⟨ht, hderived⟩ := List.mem_filter.mp ht
  rw [ne_eq, Content.shown_inj]
  exact hfresh (by simpa [h.wellBuilt.isCalledPremise_eq ht] using hderived)

theorem Reachable.mem_premiseTexts (h : Reachable p) {s : Step} (hs : s ∈ p.steps)
    (hpremise : s.isPremise = true) : s.content.shown ∈ p.premiseTexts := by
  have hmem : s.content ∈ p.premises.map Content.sentence := by
    rw [← h.orderly.premises]
    refine List.mem_map_of_mem (List.mem_filter.mpr ⟨hs, ?_⟩)
    rw [h.wellBuilt.isCalledPremise_eq hs, hpremise]
  obtain ⟨q, hq, hcontent⟩ := List.mem_map.mp hmem
  rw [← hcontent]
  exact List.mem_map_of_mem hq

theorem Reachable.mem_shown_columnsOf (h : Reachable p) {text : String} :
    text ∈ (Table.columnsOf p).map Content.shown ↔ (∃ q ∈ p.premises, q.shown = text) ∨
      (∃ s ∈ p.steps, s.content.shown = text) ∨
      ∃ goal, p.conclusion = some goal ∧ goal.shown = text := by
  have hcolumns : text ∈ (Table.columnsOf p).map Content.shown ↔
      text ∈ p.premiseTexts ∨ text ∈ p.derivedTexts ∨ text ∈ p.goalTexts := by
    rw [Table.columnsOf, Table.mem_shown_addNew, List.map_append, List.map_append, List.mem_append,
      List.mem_append, or_assoc, List.map_map, List.map_map, List.map_map, List.map_nil]
    exact or_iff_right List.not_mem_nil
  have hgoal : text ∈ p.goalTexts ↔ ∃ goal, p.conclusion = some goal ∧ goal.shown = text := by
    simp [goalTexts]
  rw [hcolumns, hgoal]
  constructor
  · rintro (hpremise | hderived | hgoal)
    · exact .inl (List.mem_map.mp hpremise)
    · obtain ⟨s, hs, htext⟩ := List.mem_map.mp hderived
      exact .inr (.inl ⟨s, (List.mem_filter.mp hs).1, htext⟩)
    · exact .inr (.inr hgoal)
  · rintro (hpremise | ⟨s, hs, rfl⟩ | hgoal)
    · exact .inl (List.mem_map.mpr hpremise)
    · cases hpremise : s.isPremise with
      | true => exact .inl (h.mem_premiseTexts hs hpremise)
      | false =>
        have hkept : s ∈ p.steps.filter fun s => !s.isPremise :=
          List.mem_filter.mpr ⟨hs, by simp [hpremise]⟩
        exact .inr (.inl (List.mem_map_of_mem hkept))
    · exact .inr (.inr hgoal)

theorem Reachable.shown_columnsOf (h : Reachable p) :
    (Table.columnsOf p).map Content.shown = p.premiseTexts ++
      p.derivedTexts.filter (· ∉ p.premiseTexts) ++
      p.goalTexts.filter fun text => text ∉ p.premiseTexts ∧ text ∉ p.derivedTexts := by
  have hpremises : (p.premises.map Content.sentence).map Content.shown = p.premiseTexts :=
    List.map_map
  have hderived : ((p.steps.filter fun s => !s.isPremise).map fun s => s.content).map
      Content.shown = p.derivedTexts := List.map_map
  have hgoal : (p.conclusion.toList.map Content.sentence).map Content.shown = p.goalTexts :=
    List.map_map
  have hone : p.goalTexts.Nodup := by
    rw [goalTexts]
    cases p.conclusion <;> simp
  rw [Table.columnsOf, Table.addNew_append, Table.addNew_append,
    Table.shown_addNew _ (hgoal ▸ hone), Table.shown_addNew _ (hderived ▸ h.nodup_derivedTexts),
    Table.shown_addNew _ (hpremises ▸ nodup_premiseTexts h.orderly), hpremises, hderived, hgoal]
  simp only [List.map_nil, List.nil_append, List.not_mem_nil, not_false_eq_true, decide_true,
    List.filter_true]
  refine congrArg _ (List.filter_congr fun text _ => ?_)
  rw [decide_eq_decide]
  simp only [List.mem_append, List.mem_filter, decide_eq_true_eq]
  tauto

end Proof

namespace Table

/-- From the proof that a run leads to, with at least one premise, a table is made. Above its
sentences stand the texts of the proof, each once: those of the premises in their order, then those
of the derived steps in theirs, as far as no premise has them, then that of the conclusion if it is
new. -/
theorem table_covers_proof (moves : List Move) (hpremises : (Proof.run moves).premises ≠ [])
    (table : Option Table) (files : Files) :
    let p := Proof.run moves
    let session : Session := ⟨p, table, files⟩
    ∃ t columns, session.tabulateProof = ({ session with table := some t }, .ok (some t)) ∧
      (Session.tableReport (some t)).1 = true ∧
      t.headers = t.letters.map (fun c => c.toString) ++ columns ∧ columns.Nodup ∧
      (∀ text, text ∈ columns ↔ (∃ q ∈ p.premises, q.shown = text) ∨
        (∃ s ∈ p.steps, s.content.shown = text) ∨
        ∃ goal, p.conclusion = some goal ∧ goal.shown = text) ∧
      p.derivedTexts.Nodup ∧
      columns = p.premiseTexts ++ p.derivedTexts.filter (· ∉ p.premiseTexts) ++
        p.goalTexts.filter fun text => text ∉ p.premiseTexts ∧ text ∉ p.derivedTexts := by
  intro p session
  have hp : Proof.Reachable p := Proof.reachable_run moves
  have hsteps : p.steps ≠ [] := by
    intro hnil
    have hsame := hp.orderly.premises
    rw [hnil] at hsame
    exact hpremises (List.map_eq_nil_iff.mp hsame.symm)
  obtain ⟨sentences, hne, hcolumns⟩ := columnsOf_sentences hp.wellBuilt hsteps
  have hshown : (columnsOf p).map Content.shown = sentences.map Sentence.shown := by
    rw [hcolumns, List.map_map]
    rfl
  refine ⟨ofSentences sentences, sentences.map Sentence.shown, ?_, rfl, rfl, ?_, fun text => ?_,
    hp.nodup_derivedTexts, ?_⟩
  · rw [Session.tabulateProof, hcolumns, tabulate_sentences hne]
  · rw [← hshown]
    exact nodup_shown_addNew List.nodup_nil
  · rw [← hshown]
    exact hp.mem_shown_columnsOf
  · rw [← hshown]
    exact hp.shown_columnsOf

/-- A premise entered after the same was derived from another: it has one column. -/
theorem table_covers_premise_derived_before :
    let p := Proof.run [.premise "A ∧ B".toList, .rule {} "CE" (.steps [1]), .premise "A".toList,
      .conclusion "B".toList]
    p.steps.map (fun s => s.content.shown) = ["A ∧ B", "A", "A"] ∧
      ∃ t, (Session.tabulateProof ⟨p, none, {}⟩).2 = .ok (some t) ∧
        t.headers = t.letters.map (fun c => c.toString) ++ ["A ∧ B", "A", "B"] := by
  intro p
  have htexts : p.steps.map (fun s => s.content.shown) = ["A ∧ B", "A", "A"] ∧
      p.premiseTexts = ["A ∧ B", "A"] ∧ p.derivedTexts = ["A"] ∧ p.goalTexts = ["B"] := by
    unfold p
    cbv
  obtain ⟨hsteps, hpremises, hderived, hgoal⟩ := htexts
  have hne : p.premises ≠ [] := by
    intro hnil
    rw [Proof.premiseTexts, hnil] at hpremises
    cases hpremises
  obtain ⟨t, columns, hmade, -, hheaders, -, -, -, hcolumns⟩ := table_covers_proof _ hne none {}
  change columns = p.premiseTexts ++ _ ++ _ at hcolumns
  rw [hpremises, hderived, hgoal] at hcolumns
  refine ⟨hsteps, t, congrArg Prod.snd hmade, hheaders.trans (congrArg _ (hcolumns.trans ?_))⟩
  decide

end Table

end Sentential
