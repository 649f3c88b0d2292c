import KamuSinavi.History.Retention
import KamuSinavi.Lib.Calls

/-! # Calls of the history service that overlap

The four operations of `TestResultsService` (`services/test_results_service.dart`), each suspended at
`SharedPreferences.getInstance` and at its write. A save and a deletion change the list in memory
before they suspend and write what is in memory when they go on; a load reads when it goes on; a clear
removes the persisted text, suspends, and then empties the list in memory. A write takes effect when it
is issued.

`Explained` says that, when no call is running, the two lists are equal, and are what the same calls
make of the service one after the other in some order. The order is that of `linear`: a save and a
deletion count when they are called, a load when it reads, and a clear when it empties the list.
`explained_of_apart` says for which runs this explains the two lists. -/

namespace KamuSinavi.History.Overlap

open KamuSinavi.Lib KamuSinavi.Lib.Runs KamuSinavi.Lib.Dart Service

inductive Call where
  | saveTestResult (t : FinishedTest) (date : DateTime)
  | loadTestResults
  | deleteTestResultAt (index : ℕ)
  | clearTestResults

/-- Where a call is suspended: a save or a deletion at `getInstance` and at its `setString`, a load at
`getInstance`, a clear at `getInstance` and at its `remove`. -/
inductive Pc where
  | beforeWrite
  | writing
  | beforeLoad
  | beforeRemove
  | removing
  deriving DecidableEq

/-- The service and the running calls. `called` holds the calls made so far, and `linear` those that
count already. -/
structure State where
  service : Service
  calls : List Pc
  called : List Call
  linear : List Call

inductive Action where
  | call (c : Call)
  | resume (k : ℕ)

/-- A call up to its first suspension. -/
def start (C : Convert) (s : State) (c : Call) : State :=
  let s := { s with called := s.called ++ [c] }
  match c with
  | .saveTestResult t date =>
    { s with
      service := { s.service with testResults := s.service.testResults ++ [newResult C t date] }
      calls := s.calls ++ [.beforeWrite]
      linear := s.linear ++ [c] }
  | .loadTestResults => { s with calls := s.calls ++ [.beforeLoad] }
  | .deleteTestResultAt index =>
    if index < s.service.testResults.length then
      { s with
        service := { s.service with testResults := s.service.testResults.eraseIdx index }
        calls := s.calls ++ [.beforeWrite]
        linear := s.linear ++ [c] }
    else { s with linear := s.linear ++ [c] }
  | .clearTestResults => { s with calls := s.calls ++ [.beforeRemove] }

/-- The call `k` goes on to its next suspension. -/
def resume (C : Convert) (s : State) (k : ℕ) : Pc → State
  | .beforeWrite =>
    { s with
      service := saveToPreferences C s.service
      calls := if (encodeAll C s.service.testResults).isSome then s.calls.set k .writing
        else s.calls.eraseIdx k }
  | .writing => { s with calls := s.calls.eraseIdx k }
  | .beforeLoad =>
    { s with
      service := Service.loadTestResults C s.service
      calls := s.calls.eraseIdx k
      linear := s.linear ++ [.loadTestResults] }
  | .beforeRemove =>
    { s with service := { s.service with prefs := none }, calls := s.calls.set k .removing }
  | .removing =>
    { s with
      service := { s.service with testResults := [] }
      calls := s.calls.eraseIdx k
      linear := s.linear ++ [.clearTestResults] }

def step (C : Convert) (s : State) : Action → Option State
  | .call c => some (start C s c)
  | .resume k => s.calls[k]?.map (resume C s k)

/-- Before any call. -/
def quiet (s₀ : Service) : State := { service := s₀, calls := [], called := [], linear := [] }

/-! ### The sequential outcome -/

/-- The call runs alone. -/
def Call.run (C : Convert) (s : Service) : Call → Service
  | .saveTestResult t date => Service.saveTestResult C s t date
  | .loadTestResults => Service.loadTestResults C s
  | .deleteTestResultAt index => Service.deleteTestResultAt C s index
  | .clearTestResults => Service.clearTestResults s

/-- The calls run one after the other. -/
def sequence (C : Convert) (s₀ : Service) (order : List Call) : Service := order.foldl (Call.run C) s₀

/-- **When no call is running, the two lists are equal, and the same calls one after the other in some
order lead to them.** -/
def Explained (C : Convert) (s₀ : Service) (s : State) : Prop :=
  s.calls = [] → history C s.service = some s.service.testResults ∧
    ∃ order, order.Perm s.called ∧
      (sequence C s₀ order).testResults = s.service.testResults ∧
        history C (sequence C s₀ order) = history C s.service

/-- A saved test has questions; a load goes on when nothing is persisted or no save or deletion is
going to write, and a save or a deletion goes on when no clear is between its two changes. -/
def Apart (s : State) : Action → Prop
  | .call (.saveTestResult t _) => t.questions ≠ []
  | .call _ => True
  | .resume k =>
    (s.calls[k]? = some .beforeLoad → s.service.prefs = none ∨ .beforeWrite ∉ s.calls) ∧
      (s.calls[k]? = some .beforeWrite → .removing ∉ s.calls)

instance (s : State) : DecidablePred (Apart s)
  | .call (.saveTestResult t _) => inferInstanceAs (Decidable (t.questions ≠ []))
  | .call .loadTestResults | .call (.deleteTestResultAt _) | .call .clearTestResults => isTrue trivial
  | .resume _ => inferInstanceAs (Decidable (_ ∧ _))

variable {C : Convert}

/-- The two lists are equal, and every score in them is a number. -/
structure Consistent (C : Convert) (s : Service) : Prop where
  synced : history C s = some s.testResults
  scored : Scored s.testResults

/-- What a call makes of the list. -/
def Call.effect (C : Convert) (results : List TestResult) : Call → List TestResult
  | .saveTestResult t date => results ++ [newResult C t date]
  | .loadTestResults => results
  | .deleteTestResultAt index => results.eraseIdx index
  | .clearTestResults => []

/-- A saved test has questions. -/
def Call.HasQuestions : Call → Prop
  | .saveTestResult t _ => t.questions ≠ []
  | _ => True

/-- A load changes nothing if the two lists are equal, or nothing is persisted. -/
theorem load_eq {s : Service} (h : s.prefs = none ∨ history C s = some s.testResults) :
    Service.loadTestResults C s = s := by
  obtain ⟨results, prefs⟩ := s
  cases prefs with
  | none => rfl
  | some text =>
    have hist := h.resolve_left (Option.some_ne_none _)
    obtain ⟨js, hjs, hrs⟩ := Option.bind_eq_some_iff.mp hist
    simp only [Service.loadTestResults, hjs, hrs]

/-- **A call run alone** has its effect on both lists. -/
theorem Consistent.run {s : Service} (hs : Consistent C s) {c : Call} (hc : c.HasQuestions) :
    Consistent C (c.run C s) ∧ (c.run C s).testResults = c.effect C s.testResults := by
  have hwritten : ∀ {results : List TestResult}, Scored results →
      Consistent C (saveToPreferences C { s with testResults := results }) ∧
        (saveToPreferences C { s with testResults := results }).testResults = results := by
    intro results hresults
    have heq := saveToPreferences_testResults (C := C) { s with testResults := results }
    have hst := saveToPreferences_of_scored (C := C) (s := { s with testResults := results }) hresults
    refine ⟨⟨?_, ?_⟩, heq⟩
    · rw [heq]; exact history_of_stored hst
    · rw [heq]; exact hresults
  cases c with
  | saveTestResult t date =>
    refine hwritten (scored_append.mpr ⟨hs.scored, fun r hr => ?_⟩)
    rw [List.mem_singleton.mp hr]
    exact isFinite_newResult.mpr hc
  | loadTestResults =>
    have heq : Call.loadTestResults.run C s = s := load_eq (Or.inr hs.synced)
    rw [heq]
    exact ⟨hs, rfl⟩
  | deleteTestResultAt index =>
    simp only [Call.run, Service.deleteTestResultAt, Call.effect]
    split_ifs with h
    · exact hwritten (hs.scored.eraseIdx index)
    · exact ⟨hs, (List.eraseIdx_of_length_le (by omega)).symm⟩
  | clearTestResults => exact ⟨⟨rfl, scored_nil⟩, rfl⟩

/-! ### What holds along a run -/

/-- The call that is running and does not count yet. -/
def Pc.pending : Pc → Option Call
  | .beforeLoad => some .loadTestResults
  | .beforeRemove | .removing => some .clearTestResults
  | .beforeWrite | .writing => none

/-- The list in memory is that of the calls that count. While a clear is between its two changes
nothing is persisted, and otherwise the lists differ only if a save or a deletion is going to write. -/
structure Inv (C : Convert) (s₀ : Service) (s : State) : Prop where
  memory : (sequence C s₀ s.linear).testResults = s.service.testResults
  sequential : Consistent C (sequence C s₀ s.linear)
  removed : .removing ∈ s.calls → s.service.prefs = none
  written : .removing ∉ s.calls → .beforeWrite ∉ s.calls →
    history C s.service = some s.service.testResults
  called : (s.linear ++ s.calls.filterMap Pc.pending).Perm s.called

variable {s₀ : Service}

theorem inv_quiet (h : Consistent C s₀) : Inv C s₀ (quiet s₀) :=
  ⟨rfl, h, fun hm => absurd hm List.not_mem_nil, fun _ _ => h.synced, List.Perm.refl _⟩

/-- One more call counts. -/
theorem Inv.linearize {s : State} (hI : Inv C s₀ s) {c : Call} (hc : c.HasQuestions) :
    (sequence C s₀ (s.linear ++ [c])).testResults = c.effect C s.service.testResults ∧
      Consistent C (sequence C s₀ (s.linear ++ [c])) := by
  have hrun := hI.sequential.run hc
  rw [hI.memory] at hrun
  have heq : sequence C s₀ (s.linear ++ [c]) = c.run C (sequence C s₀ s.linear) := by
    rw [sequence, List.foldl_append]; rfl
  rw [heq]
  exact ⟨hrun.2, hrun.1⟩

theorem Inv.scored {s : State} (hI : Inv C s₀ s) : Scored s.service.testResults :=
  hI.memory ▸ hI.sequential.scored

/-- The calls that count when a new one counts at once. -/
theorem perm_call {linear called : List Call} {calls : List Pc} (c : Call) {pc : Pc}
    (h : (linear ++ calls.filterMap Pc.pending).Perm called) (hpc : pc.pending = none) :
    ((linear ++ [c]) ++ (calls ++ [pc]).filterMap Pc.pending).Perm (called ++ [c]) := by
  have hf : (calls ++ [pc]).filterMap Pc.pending = calls.filterMap Pc.pending := by simp [hpc]
  rw [hf, List.append_assoc]
  refine (List.Perm.append_left linear List.perm_append_comm).trans ?_
  rw [← List.append_assoc]
  exact h.append_right [c]

/-- The calls that count when a new one does not yet. -/
theorem perm_suspend {linear called : List Call} {calls : List Pc} {c : Call} {pc : Pc}
    (h : (linear ++ calls.filterMap Pc.pending).Perm called) (hpc : pc.pending = some c) :
    (linear ++ (calls ++ [pc]).filterMap Pc.pending).Perm (called ++ [c]) := by
  have hf : (calls ++ [pc]).filterMap Pc.pending = calls.filterMap Pc.pending ++ [c] := by simp [hpc]
  rw [hf, ← List.append_assoc]
  exact h.append_right [c]

/-- The calls that are still pending when the call `k` goes on to `pc'`. -/
theorem pending_set {calls : List Pc} {k : ℕ} {pc : Pc} (hk : calls[k]? = some pc) (pc' : Pc)
    (hpc : pc'.pending = pc.pending) :
    ((calls.set k pc').filterMap Pc.pending).Perm (calls.filterMap Pc.pending) := by
  refine ((Calls.set_perm hk pc').filterMap _).trans
    (((Calls.perm_cons_eraseIdx hk).filterMap _).trans ?_).symm
  rw [List.filterMap_cons, List.filterMap_cons, hpc]

/-- The calls that are still pending when the call `k` ends, which does not count now. -/
theorem pending_eraseIdx {calls : List Pc} {k : ℕ} {pc : Pc} (hk : calls[k]? = some pc)
    (hpc : pc.pending = none) :
    ((calls.eraseIdx k).filterMap Pc.pending).Perm (calls.filterMap Pc.pending) := by
  have h := (Calls.perm_cons_eraseIdx hk).filterMap Pc.pending
  rw [List.filterMap_cons_none hpc] at h
  exact h.symm

/-- The calls that count when the call `k` ends and counts now. -/
theorem perm_count {linear called : List Call} {calls : List Pc} {k : ℕ} {c : Call} {pc : Pc}
    (h : (linear ++ calls.filterMap Pc.pending).Perm called) (hk : calls[k]? = some pc)
    (hpc : pc.pending = some c) :
    ((linear ++ [c]) ++ (calls.eraseIdx k).filterMap Pc.pending).Perm called := by
  have hp := (Calls.perm_cons_eraseIdx hk).filterMap Pc.pending
  rw [List.filterMap_cons_some hpc] at hp
  rw [List.append_assoc, List.singleton_append]
  exact (hp.symm.append_left linear).trans h

theorem mem_concat_of_ne {calls : List Pc} {pc pc' : Pc} (hne : pc ≠ pc') :
    pc ∈ calls ++ [pc'] ↔ pc ∈ calls := by
  simp [hne]

/-- **A new call keeps the invariant.** -/
theorem inv_start {s : State} (hI : Inv C s₀ s) {c : Call} (hc : c.HasQuestions) :
    Inv C s₀ (start C s c) := by
  obtain ⟨hmemory, hcons⟩ := hI.linearize hc
  cases c with
  | saveTestResult t date =>
    refine ⟨hmemory, hcons, fun hm => hI.removed ?_, fun _ hw => ?_, perm_call _ hI.called rfl⟩
    · exact (mem_concat_of_ne (by decide)).mp hm
    · exact absurd (List.mem_append_right _ (List.mem_singleton_self _)) hw
  | loadTestResults | clearTestResults =>
    refine ⟨hI.memory, hI.sequential, fun hm => hI.removed ?_, fun hr hw => hI.written ?_ ?_,
      perm_suspend hI.called rfl⟩
    · exact (mem_concat_of_ne (by decide)).mp hm
    · exact fun h => hr (List.mem_append_left _ h)
    · exact fun h => hw (List.mem_append_left _ h)
  | deleteTestResultAt index =>
    unfold start
    simp only
    split_ifs with h
    · refine ⟨hmemory, hcons, fun hm => hI.removed ?_, fun _ hw => ?_, perm_call _ hI.called rfl⟩
      · exact (mem_concat_of_ne (by decide)).mp hm
      · exact absurd (List.mem_append_right _ (List.mem_singleton_self _)) hw
    · refine ⟨?_, hcons, hI.removed, hI.written, ?_⟩
      · rw [hmemory]
        exact List.eraseIdx_of_length_le (by omega)
      · have := perm_call (.deleteTestResultAt index) hI.called (show Pc.writing.pending = none from rfl)
        rwa [List.filterMap_append, List.filterMap_cons_none rfl, List.filterMap_nil,
          List.append_nil] at this

/-- **A call that goes on keeps the invariant**, if it is apart from the others. -/
theorem inv_resume {s : State} (hI : Inv C s₀ s) {k : ℕ} {pc : Pc} (hk : s.calls[k]? = some pc)
    (hA : Apart s (.resume k)) : Inv C s₀ (resume C s k pc) := by
  have hmem : pc ∈ s.calls := List.mem_of_getElem? hk
  cases pc with
  | beforeWrite =>
    have hnot := hA.2 hk
    have hst := saveToPreferences_of_scored (C := C) hI.scored
    have hres := saveToPreferences_testResults (C := C) s.service
    obtain ⟨text, htext, -⟩ := exists_encodeAll (C := C) hI.scored
    have hcalls : (resume C s k .beforeWrite).calls = s.calls.set k .writing := by
      simp [resume, htext]
    refine ⟨hI.memory.trans hres.symm, hI.sequential, fun hm => ?_, fun _ _ => ?_, ?_⟩
    · rw [hcalls] at hm
      rcases List.mem_or_eq_of_mem_set hm with hm | hm
      · exact absurd hm hnot
      · cases hm
    · exact (history_of_stored hst).trans (congrArg some hres.symm)
    · rw [hcalls]
      exact ((pending_set hk .writing rfl).append_left _).trans hI.called
  | writing =>
    refine ⟨hI.memory, hI.sequential, fun hm => hI.removed (List.mem_of_mem_eraseIdx hm),
      fun hr hw => hI.written ?_ ?_, ((pending_eraseIdx hk rfl).append_left _).trans hI.called⟩
    · exact fun h => (Calls.eq_or_mem_eraseIdx hk h).elim (by simp) hr
    · exact fun h => (Calls.eq_or_mem_eraseIdx hk h).elim (by simp) hw
  | beforeLoad =>
    have hload : Service.loadTestResults C s.service = s.service := by
      refine load_eq ?_
      rcases hA.1 hk with hnone | hno
      · exact Or.inl hnone
      · by_cases hr : .removing ∈ s.calls
        · exact Or.inl (hI.removed hr)
        · exact Or.inr (hI.written hr hno)
    obtain ⟨hmemory, hcons⟩ := hI.linearize (c := .loadTestResults) trivial
    simp only [resume, hload]
    refine ⟨hmemory, hcons, fun hm => hI.removed (List.mem_of_mem_eraseIdx hm),
      fun hr hw => hI.written ?_ ?_, perm_count hI.called hk rfl⟩
    · exact fun h => (Calls.eq_or_mem_eraseIdx hk h).elim (by simp) hr
    · exact fun h => (Calls.eq_or_mem_eraseIdx hk h).elim (by simp) hw
  | beforeRemove =>
    refine ⟨hI.memory, hI.sequential, fun _ => rfl, fun hr _ => ?_,
      ((pending_set hk .removing rfl).append_left _).trans hI.called⟩
    exact absurd (Calls.mem_set_self hk .removing) hr
  | removing =>
    obtain ⟨hmemory, hcons⟩ := hI.linearize (c := .clearTestResults) trivial
    refine ⟨hmemory, hcons, fun _ => hI.removed hmem, fun _ _ => ?_, perm_count hI.called hk rfl⟩
    simp only [resume, history, hI.removed hmem]

theorem inv_step {s t : State} {a : Action} (hI : Inv C s₀ s) (hA : Apart s a)
    (h : step C s a = some t) : Inv C s₀ t := by
  cases a with
  | call c =>
    obtain rfl := Option.some.inj h
    refine inv_start hI ?_
    cases c <;> exact hA
  | resume k =>
    obtain ⟨pc, hk, rfl⟩ := Option.map_eq_some_iff.mp h
    exact inv_resume hI hk hA

theorem Inv.explained {s : State} (hI : Inv C s₀ s) : Explained C s₀ s := by
  intro hnil
  have hist : history C s.service = some s.service.testResults :=
    hI.written (by rw [hnil]; exact List.not_mem_nil) (by rw [hnil]; exact List.not_mem_nil)
  refine ⟨hist, s.linear, ?_, hI.memory, ?_⟩
  · have := hI.called
    rwa [hnil, List.filterMap_nil, List.append_nil] at this
  · rw [hI.sequential.synced, hI.memory, hist]

/-- **Overlapping calls have a sequential explanation** in every run in which the saved tests have
questions, a load goes on when nothing is persisted or no save or deletion is going to write, and a
save or a deletion goes on when no clear is between its two changes. -/
theorem explained_of_apart (h : Consistent C s₀) {as : List Action}
    (has : Along (step C) Apart (quiet s₀) as) : Always (step C) (Explained C s₀) (quiet s₀) as :=
  always_of_along (fun _ _ _ hI hA hstep => inv_step hI hA hstep) (fun _ hI => hI.explained)
    (inv_quiet h) has

/-! ### A save within a clear -/

/-- Nothing is saved. -/
def nothing : Service := { testResults := [], prefs := none }

open Retention in
theorem explained_of_apart_twoCalls :
    Always (step compact) (Explained compact nothing) (quiet nothing)
      [.call (.saveTestResult sums .noon), .call .clearTestResults, .resume 0, .resume 1, .resume 0,
        .resume 0] :=
  explained_of_apart ⟨rfl, scored_nil⟩ (by decide)

open Retention in
/-- **A save that is called after a clear and written while the clear is between its two changes** stays
persisted, and not in memory. -/
theorem savedInClear_not_explained :
    ¬ Always (step compact) (Explained compact nothing) (quiet nothing)
      [.call .clearTestResults, .call (.saveTestResult sums .noon), .resume 0, .resume 1, .resume 0,
        .resume 0] := by
  rintro ⟨-, -, -, -, -, -, hend, -⟩
  obtain ⟨hsynced, -⟩ := hend rfl
  have hst : Stored compact (Service.saveTestResult compact nothing sums .noon).prefs
      ([] ++ [newResult compact sums .noon]) := save_stored scored_nil (by decide) .noon
  have hone := history_of_stored (s := Service.mk [] _) hst
  exact absurd (Option.some.inj (hone.symm.trans hsynced)) (List.cons_ne_nil _ _)

end KamuSinavi.History.Overlap
