import Mathlib
import Sentential.Proofs.Agreement

/-! The status line and its timer. An error that comes with a record stops the timer, so that it
stays on the line, and a message that comes with a record starts it anew. Entries write on the line
directly and leave the timer as it is: an entry that is refused soon after a message puts an error
on the line that the timer of the message takes away. Nothing else does that. -/

namespace Sentential.Desk

/-- The line shows an error. -/
def StatusLine.showsError (s : StatusLine) : Bool :=
  "Error:".toList.isPrefixOf s.label.text.toList && s.label.colour = "red"

/-- No timer is going to take away an error. -/
def Messages.IsSafe (m : Messages) : Prop :=
  m.status.showsError = true → m.timer = none

theorem StatusLine.showsError_showError (topic : Option String) (message : String)
    (s : StatusLine) : (s.showError topic message).showsError = true := by
  have hstart : "Error:".toList <+: ("Error: " ++ message).toList := by
    rw [String.toList_append]
    exact List.prefix_append_of_prefix (by decide)
  rw [showsError, Bool.and_eq_true, List.isPrefixOf_iff_prefix, decide_eq_true_eq]
  exact ⟨hstart, rfl⟩

theorem StatusLine.showsError_showInfo (message : String) (s : StatusLine) :
    (s.showInfo message).showsError = false := by
  simp [showsError, showInfo]

theorem isSafe_showError (kind text : String) (d : Desk) :
    (d.showError kind text).messages.IsSafe :=
  fun _ => rfl

theorem isSafe_showInfo (text : String) (d : Desk) : (d.showInfo text).messages.IsSafe := by
  intro h
  rw [showInfo, Messages.showInfo, StatusLine.showsError_showInfo] at h
  cases h

/-- The messages are left alone, or left so that no timer is going to take away an error. -/
def Settles (d d' : Desk) : Prop :=
  d'.messages = d.messages ∨ d'.messages.IsSafe

/-! What writes on the line with a record or not at all. -/

theorem messages_withField (slot : Slot) (change : Field → Field) (d : Desk) :
    (d.withField slot change).messages = d.messages := by
  cases slot <;> rfl

theorem messages_insert (text : String) (d : Desk) : (d.insert text).messages = d.messages := by
  unfold insert
  split
  · rfl
  · exact messages_withField ..

theorem messages_turnTo (target : Option Slot) (d : Desk) :
    (d.turnTo target).messages = d.messages := by
  unfold turnTo
  split
  · rfl
  · cases d.focus with
    | none =>
      cases target with
      | none => rfl
      | some new => exact messages_withField ..
    | some old =>
      have hleft := messages_withField old Field.left d
      cases target with
      | none => exact hleft
      | some new => exact (messages_withField ..).trans hleft

theorem messages_writeTable (kind : Export.Kind) (path : String) (d : Desk) :
    (d.writeTable kind path).1.messages = d.messages := by
  unfold writeTable ask
  split
  next path' e heq =>
    have he : e.messages = d.messages := by
      split at heq
      · cases heq
        rfl
      · cases heq
        rfl
    split
    · exact he
    · exact he

theorem isSafe_execute (d : Desk) : d.execute.messages.IsSafe := by
  unfold execute
  split
  · exact isSafe_showError _ _ _
  · split
    · exact isSafe_showError _ _ _
    · split
      · split
        · exact isSafe_showInfo _ _
        · exact isSafe_showError _ _ _
      · split
        · exact isSafe_showError _ _ _
        · exact isSafe_showInfo _ _

theorem isSafe_reportTable (outcome : Desk × Bool × String) :
    (reportTable outcome).messages.IsSafe := by
  obtain ⟨d, _ | _, message⟩ := outcome
  · exact isSafe_showError _ _ _
  · exact isSafe_showInfo _ _

theorem isSafe_tabulate (d : Desk) : d.tabulate.messages.IsSafe := by
  unfold tabulate
  dsimp only
  split
  · exact isSafe_reportTable _
  · split
    · exact isSafe_showError _ _ _
    · exact isSafe_reportTable _

theorem isSafe_changeMode (mode : Mode) (d : Desk) : (d.changeMode mode).messages.IsSafe := by
  unfold changeMode
  dsimp only
  split
  · exact isSafe_showInfo _ _
  · exact isSafe_showInfo _ _

theorem settles_exportTable (d : Desk) : Settles d d.exportTable := by
  unfold exportTable ask
  dsimp only
  split
  · exact .inr (isSafe_showError _ _ _)
  · split
    · exact .inl rfl
    · split
      · exact .inl (messages_writeTable ..)
      · split
        · exact .inr (isSafe_showInfo _ _)
        · exact .inr (isSafe_showError _ _ _)

theorem settles_clearAll (d : Desk) : Settles d d.clearAll := by
  unfold clearAll ask
  dsimp only
  split
  · exact .inr (isSafe_showInfo _ _)
  · exact .inl rfl

theorem settles_expire (d : Desk) : Settles d { d with messages := d.messages.expire } := by
  unfold Messages.expire
  split
  · exact .inl rfl
  · exact .inr fun _ => rfl

theorem messages_openProject (d : Desk) : d.openProject.1.messages = d.messages := by
  unfold openProject ask
  dsimp only
  split <;> rfl

theorem messages_saveProjectAs (d : Desk) : d.saveProjectAs.1.messages = d.messages := by
  unfold saveProjectAs ask
  dsimp only
  split <;> rfl

theorem messages_saveProject (d : Desk) : d.saveProject.1.messages = d.messages := by
  unfold saveProject
  split
  · exact messages_saveProjectAs d
  · rfl

theorem messages_runRecorder (words : List String) (r : Recorder) (d : Desk) :
    (d.runRecorder words r).1.messages = d.messages := by
  unfold runRecorder
  dsimp only
  split <;> rfl

theorem messages_settle (outcome : Desk × Except Fault Unit) :
    (settle outcome).messages = outcome.1.messages := by
  obtain ⟨d, _ | _⟩ := outcome <;> rfl

theorem settles_perform (action : Action) (d : Desk) : Settles d (d.perform action).1 := by
  cases action with
  | new => exact .inr (isSafe_showInfo _ _)
  | clearAll => exact settles_clearAll d
  | openFile => exact .inl (messages_openProject d)
  | save => exact .inl (messages_saveProject d)
  | saveAs => exact .inl (messages_saveProjectAs d)
  | automaticMode | manualMode => exact .inr (isSafe_changeMode _ _)
  | help => exact .inr (isSafe_showInfo _ _)
  | exportProof | exportTable | exit | preferences | tutorial | about => exact .inl rfl

theorem settles_choose (action : Action) (d : Desk) : Settles d (d.choose action) := by
  unfold choose
  split
  · rw [Settles, messages_settle]
    exact settles_perform action d
  · exact .inl rfl
  · exact .inl ((messages_settle _).trans (messages_runRecorder _ _ d))

/-- The place whose text the gesture enters, if it enters one. -/
def Gesture.enters? : Gesture → Option Slot
  | .add slot => some slot
  | .press .add => some .premise
  | _ => none

theorem InOrder.act_entry {d : Desk} (h : d.InOrder) {g : Gesture} {slot : Slot}
    (hentry : g.enters? = some slot) : d.act g = d.add slot := by
  cases g with
  | add place =>
    cases hentry
    exact h.act_add slot
  | press button =>
    cases button with
    | add =>
      cases hentry
      exact h.act_add .premise
    | menu | letter | sign | execute | tabulate | exportTable | clearAll => cases hentry
  | type | turnTo | choose | chooseMode | wait => cases hentry

/-- Whatever is no entry leaves the messages alone, or leaves them safe. -/
theorem InOrder.settles_act {d : Desk} (h : d.InOrder) {g : Gesture} (hother : g.enters? = none) :
    Settles d (d.act g) := by
  cases g with
  | type slot text => exact .inl (messages_withField slot _ d)
  | add slot => cases hother
  | turnTo target => exact .inl (messages_turnTo target d)
  | press button =>
    cases button with
    | add => cases hother
    | menu => exact .inl rfl
    | letter c => exact .inl (messages_insert _ d)
    | sign c =>
      refine .inl ?_
      show (d.insertSign c.toString).messages = d.messages
      unfold insertSign
      split <;> exact messages_insert _ d
    | execute => exact .inr (isSafe_execute d)
    | tabulate => exact .inr (isSafe_tabulate d)
    | exportTable => exact settles_exportTable d
    | clearAll => exact settles_clearAll d
  | choose action => exact settles_choose action d
  | chooseMode mode =>
    rw [h.act_chooseMode]
    exact .inr (isSafe_changeMode mode d)
  | wait => exact settles_expire d

/-- An entry is refused, or a message is left on the line. -/
theorem submit_cases (slot : Slot) (text : List Char) (d : Desk) :
    (∃ kind why, d.submit slot text = d.reject kind why) ∨
      (d.submit slot text).messages.status.showsError = false := by
  unfold submit
  split
  · exact .inl ⟨_, _, rfl⟩
  · split
    · exact .inl ⟨_, _, rfl⟩
    · split
      · exact .inl ⟨_, _, rfl⟩
      · split
        · exact .inl ⟨_, _, rfl⟩
        · split
          · exact .inl ⟨_, _, rfl⟩
          · exact .inl ⟨_, _, rfl⟩
          · unfold enter
            split
            · exact .inl ⟨_, _, rfl⟩
            · exact .inr (StatusLine.showsError_showInfo _ _)

theorem run_concat (requests : List (Gesture × List Answer)) (request : Gesture × List Answer) :
    run (requests ++ [request]) = (run requests).respond request.1 request.2 := by
  rw [run, List.foldl_append]
  rfl

/-- What a request does to the messages: an entry may be refused, and then an error is written over
whatever the timer is for; all else settles them. -/
theorem run_concat_cases (requests : List (Gesture × List Answer))
    (request : Gesture × List Answer) :
    (∃ slot kind why, request.1.enters? = some slot ∧
      run (requests ++ [request]) = ((run requests).expecting request.2).reject kind why) ∨
    Settles (run requests) (run (requests ++ [request])) := by
  have horder : ((run requests).expecting request.2).InOrder :=
    (inOrder_run requests).of_ledger_eq rfl
  rw [run_concat, respond]
  cases hentry : request.1.enters? with
  | none => exact .inr (horder.settles_act hentry)
  | some slot =>
    rw [horder.act_entry hentry, add]
    rcases submit_cases slot _ ((run requests).expecting request.2) with ⟨kind, why, heq⟩ | hline
    · exact .inl ⟨slot, kind, why, rfl, heq⟩
    · refine .inr (.inr fun herror => ?_)
      rw [hline] at herror
      cases herror

/-- An entry was refused while a timer ran, and nothing has written on the line since. -/
def RefusedUnderTimer (requests : List (Gesture × List Answer)) : Prop :=
  ∃ before request after slot kind why, requests = before ++ request :: after ∧
    request.1.enters? = some slot ∧ (run before).messages.timer ≠ none ∧
    run (before ++ [request]) = ((run before).expecting request.2).reject kind why ∧
    ∀ more, more <+: after →
      (run (before ++ request :: more)).messages = (run (before ++ [request])).messages

theorem refusedUnderTimer_of_not_isSafe {requests : List (Gesture × List Answer)}
    (h : ¬(run requests).messages.IsSafe) : RefusedUnderTimer requests := by
  induction requests using List.reverseRecOn with
  | nil => exact absurd (isSafe_changeMode .automatic {}) h
  | append_singleton requests request ih =>
    rcases run_concat_cases requests request with ⟨slot, kind, why, hentry, heq⟩ | hkept | hsafe
    · have htimer : (run requests).messages.timer ≠ none := by
        rw [heq] at h
        exact fun hnone => h fun _ => hnone
      refine ⟨requests, request, [], slot, kind, why, rfl, hentry, htimer, heq, ?_⟩
      intro more hmore
      rw [List.prefix_nil.mp hmore]
    · rw [hkept] at h
      obtain ⟨before, refused, after, slot, kind, why, rfl, hentry, htimer, heq, hsince⟩ := ih h
      refine ⟨before, refused, after ++ [request], slot, kind, why, by simp, hentry, htimer, heq,
        fun more hmore => ?_⟩
      rcases List.prefix_concat_iff.mp hmore with rfl | hmore
      · rw [← hsince after List.prefix_rfl, ← hkept]
        simp
      · exact hsince more hmore
    · exact absurd hsafe h

/-- After whatever the user has done, a timer is going to take an error away exactly if an entry was
refused while the timer ran and nothing has written on the status line since. -/
theorem error_under_timer_iff_refused_entry (requests : List (Gesture × List Answer)) :
    (run requests).messages.status.showsError = true ∧ (run requests).messages.timer ≠ none ↔
      RefusedUnderTimer requests := by
  constructor
  · rintro ⟨herror, htimer⟩
    exact refusedUnderTimer_of_not_isSafe fun hsafe => htimer (hsafe herror)
  · rintro ⟨before, request, after, slot, kind, why, rfl, -, htimer, heq, hsince⟩
    rw [hsince after List.prefix_rfl, heq]
    exact ⟨StatusLine.showsError_showError _ _ _, htimer⟩

/-- At the start nothing is typed. Entering that is refused, and the timer of the message that the
desk starts with takes the error away. -/
theorem refused_entry_taken_away :
    let d := run [(.add .premise, [])]
    d.messages.status.showsError = true ∧ d.messages.timer = some Messages.infoTime ∧
      (d.respond .wait []).messages.status.label = ⟨"Ready", "black"⟩ := by
  decide

end Sentential.Desk
