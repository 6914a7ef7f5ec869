import Mathlib
import Sentential.Desk.Gesture
import Sentential.Proofs.SearchOutcome
import Sentential.Proofs.Tabulation

/-! Whether the panes of the desk show what the session holds. The premises are kept three times and
listed once more with numbers, the conclusion twice and the table twice; each copy is changed on its
own. A request may break off between two changes, but it does so only where the proof holds
something that was not read from a text, or where there is nothing to tabulate, and neither happens
at a desk that the user alone has worked at. So the copies agree after whatever the user has done. -/

namespace Sentential

/-- The headers and rows of the session's table as they are shown; there are none without a
table. -/
def Session.tableData (s : Session) : List String × List (List String) :=
  match s.table with
  | none => ([], [])
  | some t => (t.headers, t.digits)

namespace Desk

/-- The desk after what the user has done since the start, each time with the answers given. -/
def run (requests : List (Gesture × List Answer)) : Desk :=
  requests.foldl (fun d request => d.respond request.1 request.2) start

/-- The text is read as the sentence. -/
def Writes (text : String) (s : Sentence) : Prop :=
  Sentence.read text.toList = .ok s

/-- The panes show what the session holds. -/
structure InStep (d : Desk) : Prop where
  premises : List.Forall₂ Writes d.premises.texts d.session.proof.premises
  lines : d.premises.lines = d.premises.texts.mapIdx fun i text => s!"{i + 1}. {text}"
  entered : d.enteredPremises = d.session.proof.premises
  /-- The conclusion is the last one listed. -/
  conclusion : Option.Rel Writes d.conclusions.texts.getLast? d.session.proof.conclusion
  table : (d.tablePane.headers, d.tablePane.rows) = d.session.tableData

/-- The parts of a desk that decide whether it is in step and what its keys do. -/
structure Ledger where
  proof : Proof
  table : Option Table
  premiseTexts : List String
  premiseLines : List String
  enteredPremises : List Sentence
  conclusionTexts : List String
  headers : List String
  rows : List (List String)
  premiseKey : Bool
  conclusionKey : Bool
  watchers : Nat

def ledger (d : Desk) : Ledger where
  proof := d.session.proof
  table := d.session.table
  premiseTexts := d.premises.texts
  premiseLines := d.premises.lines
  enteredPremises := d.enteredPremises
  conclusionTexts := d.conclusions.texts
  headers := d.tablePane.headers
  rows := d.tablePane.rows
  premiseKey := d.premises.isConnected
  conclusionKey := d.conclusions.isConnected
  watchers := d.watchers

/-- A desk in step at which the user alone has worked: its proof comes from what was entered, its
keys do something, and nothing else hears of a change of mode. -/
structure InOrder (d : Desk) : Prop where
  inStep : d.InStep
  reachable : Proof.Reachable d.session.proof
  premiseKey : d.premises.isConnected = true
  conclusionKey : d.conclusions.isConnected = true
  unwatched : d.watchers = 0

theorem InOrder.of_ledger_eq {d d' : Desk} (h : d.InOrder) (hledger : d'.ledger = d.ledger) :
    d'.InOrder := by
  simp only [ledger, Ledger.mk.injEq] at hledger
  obtain ⟨hproof, htable, htexts, hlines, hentered, hconclusions, hheaders, hrows, hkey, hkey',
    hwatchers⟩ := hledger
  refine ⟨⟨?_, ?_, ?_, ?_, ?_⟩, ?_, hkey.trans h.premiseKey, hkey'.trans h.conclusionKey,
    hwatchers.trans h.unwatched⟩
  · rw [htexts, hproof]
    exact h.inStep.premises
  · rw [hlines, htexts]
    exact h.inStep.lines
  · rw [hentered, hproof]
    exact h.inStep.entered
  · rw [hconclusions, hproof]
    exact h.inStep.conclusion
  · rw [hheaders, hrows, Session.tableData, htable]
    exact h.inStep.table
  · rw [hproof]
    exact h.reachable

theorem inOrder_start : start.InOrder :=
  ⟨⟨.nil, rfl, rfl, .none, rfl⟩, .empty, rfl, rfl, rfl⟩

end Desk

/-! Entering sentences. -/

theorem Proof.setConclusion_inv {p q : Proof} {s : Sentence}
    (h : p.setConclusion (.sentence s) = .ok q) :
    q.premises = p.premises ∧ q.conclusion = some s := by
  cases h
  rw [premises_refreshed, conclusion_refreshed]
  exact ⟨rfl, rfl⟩

namespace Desk

theorem Listing.isConnected_add (text : String) (l : Listing) :
    (l.add text).isConnected = l.isConnected := by
  unfold Listing.add
  split <;> rfl

theorem Listing.add_of_ne {text : String} (hempty : text ≠ "") (hplaceholder : text ≠ placeholder)
    (l : Listing) : (l.add text).texts = l.texts ++ [text] ∧
      (l.add text).lines = l.lines ++ [s!"{l.texts.length + 1}. {text}"] := by
  rw [Listing.add, if_neg (not_or.mpr ⟨hempty, hplaceholder⟩)]
  exact ⟨rfl, rfl⟩

/-- There is something to be entered. -/
def Given (text : List Char) : Prop :=
  ¬(text.isEmpty = true ∨ text = placeholder.toList)

theorem Given.ofList_ne {text : List Char} (h : Given text) :
    String.ofList text ≠ "" ∧ String.ofList text ≠ placeholder := by
  constructor
  · intro hempty
    have hnil : text = [] := by
      rw [← String.toList_ofList (l := text), hempty]
      rfl
    exact h (.inl (List.isEmpty_iff.mpr hnil))
  · intro hplaceholder
    refine h (.inr ?_)
    rw [← hplaceholder, String.toList_ofList]

theorem given_of_checked {text : List Char} (hplain : Inspection.strayCharacters text = [])
    (hformed : Inspection.wellFormed text = .ok ()) : Given text := by
  rintro (hempty | rfl)
  · rw [List.isEmpty_iff.mp hempty] at hformed
    cases hformed
  · exact absurd hplain (by decide)

/-- What becomes of a text that passes both checks depends on the kind of the sentence. -/
theorem submit_of_checked {text : List Char} {s : Sentence}
    (hplain : Inspection.strayCharacters text = [])
    (hformed : Inspection.wellFormed text = .ok ()) (hread : Sentence.read text = .ok s)
    (slot : Slot) (d : Desk) :
    d.submit slot text =
      if s.classify = .contingent then
        (d.say "Formula is CONTINGENT").enter slot (String.ofList text) s
      else d.reject "formula" Fault.topicalWarning.message := by
  rw [submit, if_neg (given_of_checked hplain hformed)]
  simp only [hplain, hformed, hread]
  cases s.classify <;> rfl

namespace InOrder

variable {d : Desk} {text : String} {s : Sentence}

/-- A sentence goes into the proof and its text on the list, or neither. -/
theorem enter (h : d.InOrder) (hwrites : Writes text s) (hempty : text ≠ "")
    (hplaceholder : text ≠ placeholder) (slot : Slot) : (d.enter slot text s).InOrder := by
  unfold Desk.enter
  split
  · exact h.of_ledger_eq rfl
  · next proof hsubmit =>
    cases slot with
    | premise =>
      obtain ⟨htexts, hlines⟩ := Listing.add_of_ne hempty hplaceholder d.premises
      have hkey := (Listing.isConnected_add text d.premises).trans h.premiseKey
      have hadd : d.session.proof.addPremise (.sentence s) = .ok proof := hsubmit
      have hreachable := h.reachable.change (.premise hwrites hadd)
      obtain ⟨_, hsame, -, rfl⟩ := Proof.addPremise_inv hadd
      cases hsame
      refine ⟨⟨?_, ?_, ?_, h.inStep.conclusion, h.inStep.table⟩, hreachable, hkey, h.conclusionKey,
        h.unwatched⟩
      · show List.Forall₂ Writes (d.premises.add text).texts (d.session.proof.premises ++ [s])
        rw [htexts]
        exact List.rel_append h.inStep.premises (.cons hwrites .nil)
      · show (d.premises.add text).lines = (d.premises.add text).texts.mapIdx _
        rw [htexts, hlines, h.inStep.lines, List.mapIdx_concat]
      · show d.enteredPremises ++ [s] = d.session.proof.premises ++ [s]
        rw [h.inStep.entered]
    | conclusion =>
      obtain ⟨htexts, -⟩ := Listing.add_of_ne hempty hplaceholder d.conclusions
      have hkey := (Listing.isConnected_add text d.conclusions).trans h.conclusionKey
      have hset : d.session.proof.setConclusion (.sentence s) = .ok proof := hsubmit
      have hreachable := h.reachable.change (.conclusion hwrites hset)
      obtain ⟨hpremises, hconclusion⟩ := Proof.setConclusion_inv hset
      refine ⟨⟨?_, h.inStep.lines, ?_, ?_, h.inStep.table⟩, hreachable, h.premiseKey, hkey,
        h.unwatched⟩
      · show List.Forall₂ Writes d.premises.texts proof.premises
        rw [hpremises]
        exact h.inStep.premises
      · show d.enteredPremises = proof.premises
        rw [hpremises]
        exact h.inStep.entered
      · show Option.Rel Writes (d.conclusions.add text).texts.getLast? proof.conclusion
        rw [hconclusion, htexts, List.getLast?_concat]
        exact .some hwrites

theorem submit (h : d.InOrder) (slot : Slot) (text : List Char) :
    (d.submit slot text).InOrder := by
  unfold Desk.submit
  split
  · exact h.of_ledger_eq rfl
  · next hgiven =>
    split
    · exact h.of_ledger_eq rfl
    · split
      · exact h.of_ledger_eq rfl
      · split
        · exact h.of_ledger_eq rfl
        · next s hread =>
          split
          · exact h.of_ledger_eq rfl
          · exact h.of_ledger_eq rfl
          · have hsaid : (d.say "Formula is CONTINGENT").InOrder := h.of_ledger_eq rfl
            have hwrites : Writes (String.ofList text) s := by
              rw [Writes, String.toList_ofList, hread]
            -- the list would turn away nothing and the placeholder, but these are gone by now
            obtain ⟨hempty, hplaceholder⟩ := Given.ofList_ne hgiven
            exact hsaid.enter hwrites hempty hplaceholder slot

theorem addByKey (h : d.InOrder) (slot : Slot) : (d.addByKey slot).InOrder := by
  unfold Desk.addByKey
  split
  · exact h.submit slot _
  · exact h

end InOrder

theorem ledger_withField (slot : Slot) (change : Field → Field) (d : Desk) :
    (d.withField slot change).ledger = d.ledger := by
  cases slot <;> rfl

theorem ledger_insert (text : String) (d : Desk) : (d.insert text).ledger = d.ledger := by
  unfold insert
  split
  · rfl
  · exact ledger_withField _ _ _

theorem ledger_insertSign (sign : String) (d : Desk) : (d.insertSign sign).ledger = d.ledger := by
  unfold insertSign
  split <;> exact ledger_insert _ d

theorem ledger_turnTo (target : Option Slot) (d : Desk) : (d.turnTo target).ledger = d.ledger := by
  unfold turnTo
  split
  · rfl
  · cases d.focus with
    | none =>
      cases target with
      | none => rfl
      | some new => exact ledger_withField new _ _
    | some old =>
      have hleft := ledger_withField old Field.left d
      cases target with
      | none => exact hleft
      | some new => exact (ledger_withField new _ _).trans hleft

/-! Searching for a proof. -/

theorem ledger_showProof (d : Desk) : d.showProof.1.ledger = d.ledger := by
  unfold showProof
  split <;> rfl

theorem ledger_prove (d : Desk) : d.prove.1.ledger =
    (d.withProof (d.session.proof.search Proof.defaultLimit).1).ledger := by
  unfold prove
  generalize d.session.proof.search Proof.defaultLimit = outcome
  obtain ⟨proof, _ | result⟩ := outcome
  · rfl
  · have hshown := ledger_showProof (d.withProof proof)
    dsimp only
    split
    · generalize (d.withProof proof).showProof = shown at hshown ⊢
      obtain ⟨d', _ | _⟩ := shown <;> exact hshown
    · rfl

namespace InOrder

variable {d : Desk}

theorem withProof (h : d.InOrder) {q : Proof} (hq : Proof.Reachable q)
    (hextends : d.session.proof.Extends q) : (d.withProof q).InOrder := by
  refine ⟨⟨?_, h.inStep.lines, ?_, ?_, h.inStep.table⟩, hq, h.premiseKey, h.conclusionKey,
    h.unwatched⟩
  · rw [Desk.withProof, hextends.premises]
    exact h.inStep.premises
  · rw [Desk.withProof, hextends.premises]
    exact h.inStep.entered
  · rw [Desk.withProof, hextends.conclusion]
    exact h.inStep.conclusion

theorem prove (h : d.InOrder) : d.prove.1.InOrder := by
  have hreachable := Proof.reachable_after h.reachable (.search Proof.defaultLimit)
  have hextends := d.session.proof.search_extends Proof.defaultLimit
  exact (h.withProof hreachable hextends).of_ledger_eq (ledger_prove d)

theorem execute (h : d.InOrder) : d.execute.InOrder := by
  unfold Desk.execute
  split
  · exact h.of_ledger_eq rfl
  · split
    · exact h.of_ledger_eq rfl
    · split
      · have hprove := h.prove
        generalize d.prove = outcome at hprove ⊢
        obtain ⟨d', _ | _, message⟩ := outcome <;> exact hprove.of_ledger_eq rfl
      · have hshown := ledger_showProof d
        generalize d.showProof = shown at hshown ⊢
        obtain ⟨d', _ | _⟩ := shown <;> exact h.of_ledger_eq hshown

end InOrder

/-! Making and writing tables. -/

theorem foldl_addRow (rows : List (List Value)) (p : TablePane) :
    rows.foldl (fun p row => p.addRow row) p =
      { p with rows := p.rows ++ rows.map fun row => row.map TablePane.cellText } := by
  induction rows generalizing p with
  | nil => simp
  | cons row rest ih =>
    rw [List.foldl_cons, ih, TablePane.addRow, List.append_assoc]
    rfl

theorem populate_texts (headers : List String) (rows : List (List String)) (p : TablePane) :
    (p.populate headers (rows.map (·.map Value.text))).headers = headers ∧
      (p.populate headers (rows.map (·.map Value.text))).rows = rows := by
  have hcells : ∀ row : List String, (row.map Value.text).map TablePane.cellText = row := by
    intro row
    rw [List.map_map]
    exact List.map_id row
  rw [TablePane.populate, foldl_addRow]
  refine ⟨rfl, ?_⟩
  show [] ++ _ = rows
  rw [List.nil_append, List.map_map]
  exact (List.map_congr_left fun row _ => hcells row).trans (List.map_id rows)

end Desk

namespace Table

theorem addNew_sentences (columns sentences : List Sentence) :
    ∃ more, addNew (columns.map .sentence) (sentences.map .sentence) =
      (columns ++ more).map .sentence := by
  induction sentences generalizing columns with
  | nil => exact ⟨[], by simp [addNew]⟩
  | cons s rest ih =>
    rw [List.map_cons, addNew]
    split
    · exact ih columns
    · obtain ⟨more, hmore⟩ := ih (columns ++ [s])
      refine ⟨s :: more, ?_⟩
      rw [List.map_append] at hmore
      rw [show [Content.sentence s] = [s].map Content.sentence from rfl, hmore]
      simp

/-- A proof with steps has something to tabulate, and all of it is sentences. -/
theorem columnsOf_sentences {p : Proof} (h : p.WellBuilt) (hsteps : p.steps ≠ []) :
    ∃ sentences, sentences ≠ [] ∧ columnsOf p = sentences.map .sentence := by
  have hpremises : p.premises ≠ [] := fun hnil => hsteps (h.built.steps_eq_nil hnil)
  obtain ⟨first, rest, hfirst⟩ := List.exists_cons_of_ne_nil hpremises
  obtain ⟨derived, hderived⟩ : ((p.steps.filter fun s => !s.isPremise).map fun s => s.content) ∈
      Set.range (List.map Content.sentence) := by
    rw [Set.range_list_map]
    intro c hc
    obtain ⟨s, hs, rfl⟩ := List.mem_map.mp hc
    obtain ⟨t, ht, -⟩ := h.built.isRead.2 s (List.mem_filter.mp hs).1
    exact ⟨t, ht.symm⟩
  obtain ⟨more, hmore⟩ := addNew_sentences [first] (rest ++ derived ++ p.conclusion.toList)
  refine ⟨[first] ++ more, by simp, ?_⟩
  rw [← hmore, columnsOf, ← hderived, hfirst, List.map_cons, List.cons_append, List.cons_append,
    addNew, List.map_append, List.map_append]
  rfl

end Table

namespace Desk

namespace InOrder

variable {d : Desk}

theorem settleTable (h : d.InOrder) (t : Table) :
    (d.settleTable ({ d.session with table := some t }, .ok (some t))).1.InOrder := by
  obtain ⟨hheaders, hrows⟩ := populate_texts t.headers t.digits d.tablePane
  refine ⟨⟨h.inStep.premises, h.inStep.lines, h.inStep.entered, h.inStep.conclusion, ?_⟩,
    h.reachable, h.premiseKey, h.conclusionKey, h.unwatched⟩
  exact congrArg₂ Prod.mk hheaders hrows

theorem reportTable {outcome : Desk × Bool × String} (h : outcome.1.InOrder) :
    (reportTable outcome).InOrder := by
  obtain ⟨d, _ | _, message⟩ := outcome <;> exact h.of_ledger_eq rfl

theorem tabulate (h : d.InOrder) : d.tabulate.InOrder := by
  unfold Desk.tabulate
  dsimp only
  split
  · next hsteps =>
    refine reportTable ?_
    obtain ⟨sentences, hne, hcolumns⟩ :=
      Table.columnsOf_sentences h.reachable.wellBuilt (by simpa using hsteps)
    rw [tabulateProof, Session.tabulateProof, hcolumns, Table.tabulate_sentences hne]
    exact h.settleTable _
  · split
    · exact h.of_ledger_eq rfl
    · next first rest _ =>
      refine reportTable ?_
      rw [tabulateContents, Table.tabulate_sentences (List.cons_ne_nil first rest)]
      exact h.settleTable _

end InOrder

theorem exportTo_keeps (kind : Export.Kind) (time path : String) (session : Session) :
    (session.exportTo kind time path).1.proof = session.proof ∧
      (session.exportTo kind time path).1.table = session.table := by
  unfold Session.exportTo
  split <;> exact ⟨rfl, rfl⟩

theorem ledger_writeTable (kind : Export.Kind) (path : String) (d : Desk) :
    (d.writeTable kind path).1.ledger = d.ledger := by
  have hwrite : ∀ (path : String) (e : Desk), e.ledger = d.ledger →
      ({ e with session := (e.session.exportTo kind "" path).1 } : Desk).ledger = d.ledger := by
    intro path e he
    obtain ⟨hproof, htable⟩ := exportTo_keeps kind "" path e.session
    rw [← he]
    simp only [ledger, hproof, htable]
  unfold writeTable ask
  split
  next path' e heq =>
    have he : e.ledger = d.ledger := by
      split at heq
      · cases heq
        rfl
      · cases heq
        rfl
    split
    · exact he
    · exact hwrite path' e he

theorem ledger_exportTable (d : Desk) : d.exportTable.ledger = d.ledger := by
  unfold exportTable ask
  dsimp only
  split
  · rfl
  · split
    · rfl
    · split
      · exact ledger_writeTable _ _ _
      · split
        next written message heq =>
          exact (congrArg (fun outcome => outcome.1.ledger) heq).symm.trans
            (ledger_writeTable _ _ _)
        next written message heq =>
          exact (congrArg (fun outcome => outcome.1.ledger) heq).symm.trans
            (ledger_writeTable _ _ _)

/-! Clearing, modes and menus. -/

theorem InOrder.clearAll {d : Desk} (h : d.InOrder) : d.clearAll.InOrder := by
  unfold Desk.clearAll ask
  dsimp only
  split
  · exact ⟨⟨.nil, rfl, rfl, .none, rfl⟩, .empty, h.premiseKey, h.conclusionKey, h.unwatched⟩
  · exact h.of_ledger_eq rfl

theorem ledger_changeMode (mode : Mode) (d : Desk) : (d.changeMode mode).ledger = d.ledger := by
  unfold changeMode
  dsimp only
  split <;> rfl

theorem ledger_runRecorder (words : List String) (r : Recorder) (d : Desk) :
    (d.runRecorder words r).1.ledger = d.ledger := by
  unfold runRecorder
  dsimp only
  split <;> rfl

theorem ledger_openProject (d : Desk) : d.openProject.1.ledger = d.ledger := by
  unfold openProject ask
  dsimp only
  split <;> rfl

theorem ledger_saveProjectAs (d : Desk) : d.saveProjectAs.1.ledger = d.ledger := by
  unfold saveProjectAs ask
  dsimp only
  split <;> rfl

theorem ledger_saveProject (d : Desk) : d.saveProject.1.ledger = d.ledger := by
  unfold saveProject
  split
  · exact ledger_saveProjectAs d
  · rfl

theorem ledger_settle (outcome : Desk × Except Fault Unit) :
    (settle outcome).ledger = outcome.1.ledger := by
  obtain ⟨d, _ | _⟩ := outcome <;> rfl

namespace InOrder

variable {d : Desk}

theorem perform (h : d.InOrder) (action : Action) : (d.perform action).1.InOrder := by
  cases action with
  | new => exact h.clearAll.of_ledger_eq rfl
  | clearAll => exact h.clearAll
  | openFile => exact h.of_ledger_eq (ledger_openProject d)
  | save => exact h.of_ledger_eq (ledger_saveProject d)
  | saveAs => exact h.of_ledger_eq (ledger_saveProjectAs d)
  | automaticMode | manualMode => exact h.of_ledger_eq (ledger_changeMode _ d)
  | exportProof | exportTable | exit | preferences | help | tutorial | about =>
    exact h.of_ledger_eq rfl

theorem choose (h : d.InOrder) (action : Action) : (d.choose action).InOrder := by
  unfold Desk.choose
  split
  · exact (h.perform action).of_ledger_eq (ledger_settle _)
  · exact h.of_ledger_eq rfl
  · exact h.of_ledger_eq ((ledger_settle _).trans (ledger_runRecorder _ _ d))

theorem press (h : d.InOrder) (button : Button) : (d.press button).InOrder := by
  cases button with
  | menu => exact h
  | add => exact h.addByKey .premise
  | letter c => exact h.of_ledger_eq (ledger_insert _ d)
  | sign c => exact h.of_ledger_eq (ledger_insertSign _ d)
  | execute => exact h.execute
  | tabulate => exact h.tabulate
  | exportTable => exact h.of_ledger_eq (ledger_exportTable d)
  | clearAll => exact h.clearAll

theorem act_add (h : d.InOrder) (slot : Slot) : d.act (.add slot) = d.add slot := by
  cases slot with
  | premise => exact if_pos h.premiseKey
  | conclusion => exact if_pos h.conclusionKey

theorem act_chooseMode (h : d.InOrder) (mode : Mode) :
    d.act (.chooseMode mode) = d.changeMode mode := by
  rw [Desk.act, Desk.chooseMode, h.unwatched]
  rfl

theorem act (h : d.InOrder) (gesture : Gesture) : (d.act gesture).InOrder := by
  cases gesture with
  | type slot text => exact h.of_ledger_eq (ledger_withField slot _ d)
  | add slot => exact h.addByKey slot
  | turnTo target => exact h.of_ledger_eq (ledger_turnTo target d)
  | press button => exact h.press button
  | choose action => exact h.choose action
  | chooseMode mode =>
    rw [h.act_chooseMode]
    exact h.of_ledger_eq (ledger_changeMode mode d)
  | wait => exact h.of_ledger_eq rfl

theorem respond (h : d.InOrder) (gesture : Gesture) (answers : List Answer) :
    (d.respond gesture answers).InOrder := by
  have hexpecting : (d.expecting answers).InOrder := h.of_ledger_eq rfl
  exact hexpecting.act gesture

end InOrder

theorem inOrder_run (requests : List (Gesture × List Answer)) : (run requests).InOrder :=
  List.foldlRecOn requests _ inOrder_start fun _ hd request _ => hd.respond request.1 request.2

/-- Whatever the user has done, in whatever order and with whatever texts and answers, the panes show
what the session holds, and the keys and the choice of a mode still do what they are there for. -/
theorem panes_in_step (requests : List (Gesture × List Answer)) :
    let d := run requests
    d.InStep ∧ (∀ slot, d.act (.add slot) = d.add slot) ∧
      ∀ mode, d.act (.chooseMode mode) = d.changeMode mode := by
  intro d
  have hd : d.InOrder := inOrder_run requests
  exact ⟨hd.inStep, hd.act_add, hd.act_chooseMode⟩

end Desk

end Sentential
