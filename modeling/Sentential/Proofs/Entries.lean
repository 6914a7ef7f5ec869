import Mathlib
import Sentential.Proofs.Parentheses
import Sentential.Proofs.StatusTimer

/-! Which sentences can be entered as premises. A text that passes both checks is read as a sentence.
Before this is entered, the user is told of what kind it is; but a warning with a topic has no place
on the status line, so that the entry of a sentence that is always true or always false breaks off at
the warning. Of the sentences that are not listed yet, exactly the contingent ones get through. -/

namespace Sentential

theorem Sentence.classify_eq_contingent_iff {s : Sentence} (h : s.IsRead) {f : Formula}
    (hf : s.formula = some f) : s.classify = .contingent ↔ Classification.contingent.Fits f := by
  have hletters : ∀ c ∈ s.letters, c ∈ s.letters := fun _ hc => hc
  have hfits : s.classify.Fits f := by
    refine fits_classifyOver ?_ ?_
    · rw [isTautologyOver_iff h hletters]
      exact forall_congr' fun v => isTrue_iff hf
    · rw [isContradictionOver_iff h hletters]
      exact forall_congr' fun v => by rw [isTrue_iff hf, Bool.not_eq_true]
  exact ⟨fun hkind => hkind ▸ hfits, hfits.unique⟩

theorem Proof.addPremise_of_new {p : Proof} {s : Sentence} (h : ∀ q ∈ p.premises, q.text ≠ s.text) :
    p.addPremise (.sentence s) =
      .ok { p.addStep (.sentence s) .premise [] with premises := p.premises ++ [s] } := by
  rw [Proof.addPremise, if_neg (by simpa using h)]

namespace Desk

/-- The text that is typed in a place, as it is going to be entered. -/
def typed (d : Desk) (slot : Slot) : List Char :=
  Text.trim (d.listing slot).field.text.toList

/-- A premise is entered: the sentence is added to the proof and a line with its text to the list. -/
structure Gains (d d' : Desk) (text : List Char) (s : Sentence) : Prop where
  premises : d'.session.proof.premises = d.session.proof.premises ++ [s]
  lines : d'.premises.lines =
    d.premises.lines ++ [s!"{d.premises.lines.length + 1}. {String.ofList text}"]

section

variable {d : Desk} {text : List Char} {s : Sentence}

theorem add_of_plain {slot : Slot} (hplain : Inspection.strayCharacters (d.typed slot) = []) :
    d.add slot = d.submit slot (d.typed slot) := by
  have hother : (d.listing slot).field.text ≠ placeholder := by
    intro heq
    rw [typed, heq] at hplain
    exact absurd hplain (by decide)
  rw [add, Field.input, if_neg hother]
  rfl

theorem enter_new (h : d.InStep) (hgiven : Given text)
    (hnew : ∀ q ∈ d.session.proof.premises, q.text ≠ s.text) :
    d.Gains (d.enter .premise (String.ofList text) s) text s := by
  have hlength : d.premises.lines.length = d.premises.texts.length := by
    rw [h.lines, List.length_mapIdx]
  obtain ⟨hempty, hplaceholder⟩ := hgiven.ofList_ne
  obtain ⟨-, hlines⟩ := Listing.add_of_ne hempty hplaceholder d.premises
  rw [enter, Slot.submit, Proof.addPremise_of_new hnew]
  refine ⟨rfl, ?_⟩
  rw [hlength]
  exact hlines

/-- Entering a text that passes both checks, at a desk in order: the sentence that it writes is
entered if it is contingent and new, and nothing is entered if it is not contingent. -/
theorem InOrder.add_checked (h : d.InOrder)
    (hplain : Inspection.strayCharacters (d.typed .premise) = [])
    (hformed : Inspection.wellFormed (d.typed .premise) = .ok ())
    (hread : Sentence.read (d.typed .premise) = .ok s) :
    (s.classify = .contingent → (∀ q ∈ d.session.proof.premises, q.text ≠ s.text) →
      d.Gains (d.add .premise) (d.typed .premise) s) ∧
    (s.classify ≠ .contingent →
      d.add .premise = d.reject "formula" Fault.topicalWarning.message) := by
  rw [add_of_plain hplain, submit_of_checked hplain hformed hread]
  constructor
  · intro hkind hnew
    rw [if_pos hkind]
    -- the message that comes first leaves the proof and the list as they are
    have hsaid : (d.say "Formula is CONTINGENT").InOrder := h.of_ledger_eq rfl
    obtain ⟨hpremises, hlines⟩ := enter_new hsaid.inStep (given_of_checked hplain hformed) hnew
    exact ⟨hpremises, hlines⟩
  · intro hkind
    rw [if_neg hkind]

end

/-- Whatever the user has done, a text in the premises' field that passes both checks writes a
sentence. If no premise has its text, then entering it, by key or button, adds it to the proof and to
the list if it is contingent; otherwise nothing is added anywhere, and the user is shown an error. -/
theorem new_premise_entered_iff_contingent (requests : List (Gesture × List Answer))
    {g : Gesture} (hentry : g.enters? = some .premise) (answers : List Answer)
    (hplain : Inspection.strayCharacters ((run requests).typed .premise) = [])
    (hformed : Inspection.wellFormed ((run requests).typed .premise) = .ok ()) :
    let d := run requests
    let d' := d.respond g answers
    ∃ s f, Sentence.read (d.typed .premise) = .ok s ∧ s.formula = some f ∧
      ((∀ q ∈ d.session.proof.premises, q.text ≠ s.text) →
        (Classification.contingent.Fits f → d.Gains d' (d.typed .premise) s) ∧
        (¬Classification.contingent.Fits f →
          d'.ledger = d.ledger ∧ d'.messages.status.label = ⟨"Error: formula", "red"⟩)) := by
  intro d d'
  obtain ⟨s, hread⟩ := Inspection.wellFormed_eq_ok.mp hformed
  have hs : s.IsRead := ⟨_, hread⟩
  obtain ⟨f, hf, -⟩ := hs.formula
  have horder : (d.expecting answers).InOrder := (inOrder_run requests).of_ledger_eq rfl
  have hadd : d' = (d.expecting answers).add .premise := horder.act_entry hentry
  obtain ⟨hcontingent, hother⟩ := horder.add_checked hplain hformed hread
  refine ⟨s, f, hread, hf, fun hnew => ?_⟩
  rw [← Sentence.classify_eq_contingent_iff hs hf, hadd]
  constructor
  · intro hkind
    obtain ⟨hpremises, hlines⟩ := hcontingent hkind hnew
    exact ⟨hpremises, hlines⟩
  · intro hkind
    rw [hother hkind]
    exact ⟨rfl, rfl⟩

set_option maxRecDepth 4000 in
/-- A conditional that is typed with blanks around it is entered without them. -/
theorem conditional_is_entered :
    let d := run [(.type .premise " A -> B ", [])]
    let f : Formula := .binary .implies (.letter 'A') (.letter 'B')
    let s : Sentence := ⟨"A -> B".toList, some f, ['A', 'B']⟩
    Inspection.strayCharacters (d.typed .premise) = [] ∧
      Inspection.wellFormed (d.typed .premise) = .ok () ∧
      (d.respond (.press .add) []).session.proof.premises = [s] ∧
      (d.respond (.press .add) []).premises.lines = ["1. A -> B"] := by
  intro d f s
  have htyped : d.typed .premise = "A -> B".toList := by decide
  obtain ⟨hformed, hsentence⟩ : Inspection.wellFormed "A -> B".toList = .ok () ∧
      Sentence.read "A -> B".toList = .ok s := by
    unfold s f
    constructor <;> cbv
  have hplain : Inspection.strayCharacters (d.typed .premise) = [] := by
    rw [htyped]
    decide
  rw [← htyped] at hformed hsentence
  obtain ⟨t, g, hread, hg, hentered⟩ := new_premise_entered_iff_contingent
    [(.type .premise " A -> B ", [])] (g := .press .add) rfl [] hplain hformed
  obtain rfl : s = t := Except.ok.inj (hsentence.symm.trans hread)
  obtain rfl : f = g := Option.some.inj hg
  have hcontingent : Classification.contingent.Fits f :=
    ⟨⟨fun _ => true, rfl⟩, fun c => c = 'A', by decide⟩
  obtain ⟨hpremises, hlines⟩ := (hentered (List.forall_mem_nil _)).1 hcontingent
  refine ⟨hplain, hformed, hpremises, hlines.trans ?_⟩
  rw [htyped]
  rfl

set_option maxRecDepth 4000 in
/-- The law of the excluded middle passes both checks and no premise is there yet, but it is not
entered. -/
theorem excluded_middle_is_not_entered :
    let d := run [(.type .premise "A ∨ ¬A", [])]
    Inspection.strayCharacters (d.typed .premise) = [] ∧
      Inspection.wellFormed (d.typed .premise) = .ok () ∧ d.session.proof.premises = [] ∧
      (d.respond (.add .premise) []).session.proof.premises = [] ∧
      (d.respond (.add .premise) []).premises.lines = [] ∧
      (d.respond (.add .premise) []).messages.status.label = ⟨"Error: formula", "red"⟩ := by
  intro d
  have htyped : d.typed .premise = "A ∨ ¬A".toList := by decide
  obtain ⟨hformed, hread⟩ : Inspection.wellFormed "A ∨ ¬A".toList = .ok () ∧
      Sentence.read "A ∨ ¬A".toList = .ok ⟨"A ∨ ¬A".toList,
        some (.binary .or (.letter 'A') (.not (.letter 'A'))), ['A']⟩ := by
    constructor <;> cbv
  have hplain : Inspection.strayCharacters (d.typed .premise) = [] := by
    rw [htyped]
    decide
  rw [← htyped] at hformed hread
  have horder : (d.expecting []).InOrder :=
    (inOrder_run [(.type .premise "A ∨ ¬A", [])]).of_ledger_eq rfl
  have hrejected : d.respond (.add .premise) [] =
      (d.expecting []).reject "formula" Fault.topicalWarning.message :=
    (horder.act_add .premise).trans ((horder.add_checked hplain hformed hread).2 (by decide))
  rw [hrejected]
  exact ⟨hplain, hformed, rfl, rfl, rfl, rfl⟩

end Desk

end Sentential
