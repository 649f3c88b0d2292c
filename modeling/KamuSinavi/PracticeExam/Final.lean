import KamuSinavi.PracticeExam.Isolation

/-! # One submission for each user

`finishTest` checks `hasUserTakenExam`, a flag the page has read when it was loaded, and suspends
before it writes. `Final` says of a step that it leaves the score and the answers of every result as
they are. `final_of_exclusive` gives a condition on the presses of `Testi Bitir` under which no step
of a run does otherwise: that the user has no result yet, and no other call of `finishTest` is on its
way to its write. -/

namespace KamuSinavi.PracticeExam

open KamuSinavi.Lib KamuSinavi.Lib.Runs

/-- **A result that exists keeps its score and its answers.** -/
def Final (s : State) (_ : Action) (t : State) : Prop :=
  ∀ uid r, s.store.results.get? uid = some r → ∃ r', t.store.results.get? uid = some r' ∧
    r'.score = r.score ∧ r'.answers = r.answers

/-- The user a call is going to write a result of. -/
def Finish.writer : Finish → Option String
  | .getUserFullName user => some user.uid
  | .write uid _ => some uid
  | .fetchResults => none

/-- The number of calls that are going to write a result of `uid`. -/
def pending (s : State) (uid : String) : ℕ := s.calls.countP fun c => c.pc.writer = some uid

/-- When the test is finished the user has no result, and no call is going to write one. -/
def Exclusive (s : State) : Action → Prop
  | .tapFinish i => ∀ p ∈ s.pages[i]?, ∀ user ∈ p.user,
      s.store.results.get? user.uid = none ∧ pending s user.uid = 0
  | _ => True

instance (s : State) : DecidablePred (Exclusive s)
  | .tapFinish i => inferInstanceAs (Decidable (∀ p ∈ s.pages[i]?, ∀ user ∈ p.user,
      s.store.results.get? user.uid = none ∧ pending s user.uid = 0))
  | .publish .. | .remove | .wait _ | .openPage _ | .loadExam _ | .loadFails _ | .rebuild _
  | .chooseTopic .. | .tapOption .. | .finishTest .. | .finishFails _ | .dispose _ => isTrue trivial

/-- Of each user one call at most is going to write a result, and only if there is none. -/
def OneWriter (s : State) : Prop :=
  ∀ uid, pending s uid ≤ 1 ∧ (pending s uid ≠ 0 → s.store.results.get? uid = none)

/-! ### What a step does to the writers and the results -/

theorem pending_pos {s : State} {k : ℕ} {uid : String} {data : ResultData} (hw : Writes s k uid data) :
    0 < pending s uid := by
  obtain ⟨c, hc, hpc⟩ := hw
  refine List.countP_pos_iff.mpr ⟨c, List.mem_of_getElem? hc, ?_⟩
  simp [hpc, Finish.writer]

/-- **There is one more writer only when the user finishes a test.** -/
theorem pending_step {s t : State} {a : Action} (h : step s a = some t) (uid : String) :
    pending t uid ≤ pending s uid ∨ ∃ i p user, a = .tapFinish i ∧ s.pages[i]? = some p ∧
      p.user = some user ∧ user.uid = uid ∧ pending t uid = pending s uid + 1 := by
  have hcalls := calls_step h
  unfold pending
  generalize t.calls = calls at hcalls
  cases hcalls with
  | same => exact Or.inl (Nat.le_refl _)
  | tapFinish hp hen =>
    rename_i i p
    rw [List.countP_append, List.countP_singleton]
    unfold firstSuspension
    cases hu : p.user with
    | none => exact Or.inl (Nat.le_refl _)
    | some user =>
      by_cases huid : user.uid = uid
      · exact Or.inr ⟨i, p, user, rfl, hp, hu, huid, by simp [Finish.writer, huid]⟩
      · exact Or.inl (by simp [Finish.writer, huid])
  | write hc hp hpc hexam =>
    rename_i k full_name c p user exam
    have hcount := Calls.countP_set hc
      { c with pc := .write user.uid (resultData p exam user full_name) }
      fun c => c.pc.writer = some uid
    rw [hpc] at hcount
    exact Or.inl (Nat.add_right_cancel hcount).le
  | fetchResults hc hpc =>
    rename_i c _ _
    have hcount := Calls.countP_set hc { c with pc := .fetchResults }
      fun c => c.pc.writer = some uid
    have hno : ¬ Finish.fetchResults.writer = some uid := Option.some_ne_none _ ∘ Eq.symm
    simp only [hno, decide_false, Bool.false_eq_true, if_false] at hcount
    exact Or.inl (by omega)
  | ends | fails => exact Or.inl (List.eraseIdx_sublist ..).countP_le

/-- A call that has written its result is no writer any more. -/
theorem pending_of_writes {s t : State} {k : ℕ} {full_name : Option String}
    (h : step s (.finishTest k full_name) = some t) {uid : String} {data : ResultData}
    (hw : Writes s k uid data) : pending t uid + 1 = pending s uid := by
  obtain ⟨c, hc, hpc⟩ := hw
  have hcalls := calls_step h
  unfold pending
  generalize t.calls = calls at hcalls
  cases hcalls with
  | same ha => exact absurd rfl (ha k full_name)
  | write hc' _ hpc' | ends hc' hpc' =>
    rw [hc] at hc'
    obtain rfl := Option.some.inj hc'
    rw [hpc] at hpc'
    cases hpc'
  | fetchResults hc' =>
    rw [hc] at hc'
    obtain rfl := Option.some.inj hc'
    have hcount := Calls.countP_set hc { c with pc := .fetchResults }
      fun c => c.pc.writer = some uid
    simpa [hpc, Finish.writer] using hcount

/-- **The result of a user changes only by a write.** -/
theorem results_step {s t : State} {a : Action} (h : step s a = some t) (uid : String) :
    t.store.results.get? uid = s.store.results.get? uid ∨
      ∃ k full_name data, a = .finishTest k full_name ∧ Writes s k uid data := by
  rcases step_store h with ⟨title, topic, questions, -, hp⟩ | ⟨-, hr⟩ |
    ⟨k, full_name, uid', data, ha, hw, ht⟩ | ⟨-, hsame⟩
  · exact Or.inl (by rw [publish_results hp])
  · exact Or.inl (by rw [hr, remove])
  · by_cases huid : uid = uid'
    · exact Or.inr ⟨k, full_name, data, ha, huid ▸ hw⟩
    · exact Or.inl (by rw [ht, setResult, LinkedMap.get?_set_of_ne _ huid])
  · exact Or.inl (by rw [hsame.results])

theorem oneWriter_step {s t : State} {a : Action} (hW : OneWriter s) (hx : Exclusive s a)
    (h : step s a = some t) : OneWriter t := by
  intro uid
  obtain ⟨hone, hno⟩ := hW uid
  rcases results_step h uid with hres | ⟨k, full_name, data, rfl, hw⟩
  · rw [hres]
    rcases pending_step h uid with hle | ⟨i, p, user, rfl, hp, hu, rfl, hadd⟩
    · exact ⟨hle.trans hone, fun h0 => hno (by omega)⟩
    · obtain ⟨hnone, hzero⟩ := hx p hp user hu
      exact ⟨by omega, fun _ => hnone⟩
  · have hless := pending_of_writes h hw
    exact ⟨by omega, fun h0 => absurd h0 (by omega)⟩

/-- **With one writer for each user every step is final.** -/
theorem final_step {s t : State} {a : Action} (hW : OneWriter s) (h : step s a = some t) :
    Final s a t := by
  intro uid r hr
  rcases results_step h uid with hres | ⟨k, full_name, data, rfl, hw⟩
  · exact ⟨r, hres.trans hr, rfl, rfl⟩
  · have hnone := (hW uid).2 (pending_pos hw).ne'
    rw [hnone] at hr
    cases hr

/-- **Results are final in every run in which a test is finished only by a user who has no result, and
in one session at a time.** -/
theorem final_of_exclusive {s : State} (hcalls : s.calls = []) {as : List Action}
    (h : Along step Exclusive s as) : EachStep step Final s as :=
  eachStep_of_along (J := OneWriter)
    (fun _ _ _ hW hx hs => ⟨oneWriter_step hW hx hs, final_step hW hs⟩)
    (fun uid => by
      have h0 : pending s uid = 0 := by rw [pending, hcalls]; rfl
      exact ⟨by omega, fun hne => absurd h0 hne⟩) h

theorem final_of_exclusive_secondExam : EachStep step Final installed secondExam :=
  final_of_exclusive rfl (by decide)

/-! ### Two sessions of one user -/

/-- The user opens the exam on two devices and finishes it on both. -/
def twoSessions : List Action :=
  [.publish "Deneme 1" "Matematik" [sumForm], .openPage (some ayse), .openPage (some ayse),
    .loadExam 0, .loadExam 0, .loadExam 0, .loadExam 1, .loadExam 1, .loadExam 1,
    .chooseTopic 0 "Matematik", .chooseTopic 1 "Matematik",
    .tapOption 0 0 "5", .tapFinish 0, .finishTest 0 (some "Ayşe"), .finishTest 0 none,
    .tapOption 1 0 "4", .tapFinish 1, .finishTest 1 (some "Ayşe"), .finishTest 1 none]

/-- **The second session overwrites the result of the first.** -/
theorem twoSessions_not_final : ¬ EachStep step Final installed twoSessions := by
  intro h
  have hayse : EachStep step (fun s _ t => ∀ r ∈ s.store.results.get? "ayse",
      (t.store.results.get? "ayse").map (·.score) = some r.score) installed twoSessions :=
    eachStep_mono (fun s _ t hF r hr => by
      obtain ⟨r', hr', hscore, -⟩ := hF "ayse" r hr
      rw [hr', Option.map_some, hscore]) h
  exact absurd hayse (by decide)

end KamuSinavi.PracticeExam
