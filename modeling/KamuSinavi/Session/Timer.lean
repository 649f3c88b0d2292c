import KamuSinavi.Session.TestScreen

/-! # The time of a test

`_startTimer` (`pages/test_screen.dart`) counts the seconds of a test down while the test is open, and
opens a result at the tick after the last second.

`onTime` says what the clock and the result pages are at every moment of a session, in terms of the
ticks, the taps on the button and the backs so far: the timer opens one result, at one tick, whatever
is done meanwhile. -/

namespace KamuSinavi.Session.Timer

open KamuSinavi.Lib KamuSinavi.Lib.Runs KamuSinavi.Lib.Dart KamuSinavi.History

def isTick : Step → Bool
  | .tick => true
  | _ => false

def isFinish : Step → Bool
  | .tapFinish => true
  | _ => false

def isBack : Step → Bool
  | .back => true
  | _ => false

/-- The seconds of a test. -/
def seconds (w : TestScreen) : ℕ := w.testDuration * 60

/-- The result pages that the timer has opened after `n` ticks. -/
def timeOuts (w : TestScreen) (n : ℕ) : ℕ := if seconds w < n then 1 else 0

/-- **A session after `n` ticks, `f` taps on the button and `b` backs**: the clock shows the seconds
that are left, and the timer runs while the test is open and its time is not over; the session has ended
when the button was tapped or the time is over, and each of these has opened a page, of which each back
has taken one off. -/
structure OnTime (w : TestScreen) (n f b : ℕ) (t : State) : Prop where
  remaining : t.remainingTime = if w.isTimerEnabled = true then seconds w - n else 0
  ticks : n ≤ if w.isTimerEnabled = true then seconds w + 1 else 0
  running : t.timer = true ↔ w.isTimerEnabled = true ∧ t.opened = true ∧ n ≤ seconds w
  ended : t.endedWith ≠ none ↔ 0 < f + timeOuts w n
  pages : t.opened = true → t.results.length + b = f + timeOuts w n

variable {C : Convert} {w : TestScreen} {n f b : ℕ} {s t : State}

/-- The page of the timer is opened at one tick. -/
theorem timeOuts_succ (w : TestScreen) (n : ℕ) :
    timeOuts w (n + 1) = timeOuts w n + if n = seconds w then 1 else 0 := by
  unfold timeOuts
  split_ifs <;> omega

theorem endedWith_navigate (s : State) : (navigateToResultScreen s).endedWith ≠ none := by
  unfold navigateToResultScreen
  cases s.endedWith <;> simp

theorem onTime_initState (qs : RandomQuestions w) (service : Service) :
    OnTime w 0 0 0 (initState w qs service) := by
  have hno : timeOuts w 0 = 0 := if_neg (Nat.not_lt_zero _)
  refine ⟨rfl, Nat.zero_le _, ?_, ?_, fun _ => ?_⟩
  · exact ⟨fun h => ⟨h, rfl, Nat.zero_le _⟩, fun h => h.1⟩
  · rw [hno]
    exact iff_of_false (fun h => h rfl) (Nat.lt_irrefl 0)
  · rw [hno]
    rfl

/-- While the timer runs there is time left, or it is the last tick. -/
theorem OnTime.left (h : OnTime w n f b s) (ht : s.timer = true) :
    w.isTimerEnabled = true ∧ s.opened = true ∧ n ≤ seconds w ∧ s.remainingTime = seconds w - n := by
  obtain ⟨henabled, hopened, hle⟩ := h.running.mp ht
  have hremaining := h.remaining
  rw [if_pos henabled] at hremaining
  exact ⟨henabled, hopened, hle, hremaining⟩

/-- The session is left, and the timer stopped. -/
theorem OnTime.leave (h : OnTime w n f b s) (results : List ResultScreen) (b' : ℕ) :
    OnTime w n f b' { s with results := results, timer := false, opened := false } := by
  refine ⟨h.remaining, h.ticks, ?_, h.ended, fun ho => ?_⟩
  · exact iff_of_false (fun ht => (by cases ht)) fun hr => by cases hr.2.1
  · cases ho

/-- A tick before the last. -/
theorem OnTime.tick (h : OnTime w n f b s) (ht : s.timer = true) (hr : 0 < s.remainingTime) :
    OnTime w (n + 1) f b { s with remainingTime := s.remainingTime - 1 } := by
  obtain ⟨henabled, hopened, hle, hremaining⟩ := h.left ht
  have hover : timeOuts w (n + 1) = timeOuts w n := by
    rw [timeOuts_succ, if_neg (by omega)]
    rfl
  refine ⟨?_, ?_, ?_, ?_, fun ho => ?_⟩
  · rw [if_pos henabled]
    change s.remainingTime - 1 = seconds w - (n + 1)
    omega
  · rw [if_pos henabled]
    omega
  · exact iff_of_true ht ⟨henabled, hopened, show n + 1 ≤ _ by omega⟩
  · rw [hover]
    exact h.ended
  · rw [hover]
    exact h.pages ho

/-- The last tick stops the timer and opens a page. -/
theorem OnTime.timeOut (h : OnTime w n f b s) (ht : s.timer = true) (hr : ¬ 0 < s.remainingTime) :
    OnTime w (n + 1) f b (navigateToResultScreen { s with timer := false }) := by
  obtain ⟨henabled, hopened, hle, hremaining⟩ := h.left ht
  have hlast : n = seconds w := by omega
  have hover : timeOuts w (n + 1) = timeOuts w n + 1 := by
    rw [timeOuts_succ, if_pos hlast]
  refine ⟨?_, ?_, ?_, ?_, fun ho => ?_⟩
  · rw [if_pos henabled]
    change s.remainingTime = seconds w - (n + 1)
    omega
  · rw [if_pos henabled]
    omega
  · refine iff_of_false (fun htimer => (by cases htimer)) fun hrun => ?_
    have hle' : n + 1 ≤ seconds w := hrun.2.2
    omega
  · refine iff_of_true (endedWith_navigate _) ?_
    omega
  · have hpages := h.pages ho
    change s.results.length + 1 + b = f + timeOuts w (n + 1)
    omega

/-- A tap on the button opens a page. -/
theorem OnTime.finish (h : OnTime w n f b s) : OnTime w n (f + 1) b (navigateToResultScreen s) := by
  refine ⟨h.remaining, h.ticks, h.running, ?_, fun ho => ?_⟩
  · refine iff_of_true (endedWith_navigate _) ?_
    omega
  · have hpages := h.pages ho
    change s.results.length + 1 + b = f + 1 + timeOuts w n
    omega

/-- A back takes a page off. -/
theorem OnTime.pop (h : OnTime w n f b s) {r : ResultScreen} {rs : List ResultScreen}
    (hr : s.results = r :: rs) : OnTime w n f (b + 1) { s with results := rs } := by
  refine ⟨h.remaining, h.ticks, h.running, h.ended, fun ho => ?_⟩
  have hpages := h.pages ho
  rw [hr, List.length_cons] at hpages
  change rs.length + (b + 1) = _
  omega

/-- **A step keeps the time.** -/
theorem onTime_step (h : OnTime w n f b s) {a : Step} (hs : step C s a = some t) :
    OnTime w (n + (isTick a).toNat) (f + (isFinish a).toNat) (b + (isBack a).toNat) t := by
  cases steps_of_step hs with
  | ticked ht hr => exact h.tick ht hr
  | timedOut ht hr => exact h.timeOut ht hr
  | finished hon => exact h.finish
  | popped hr => exact h.pop hr
  | closed hr ho => exact h.leave s.results (b + 1)
  | wentHome hr => exact h.leave [] b
  | selected hq hon => exact ⟨h.remaining, h.ticks, h.running, h.ended, h.pages⟩
  | built hi =>
    refine ⟨h.remaining, h.ticks, h.running, h.ended, fun ho => ?_⟩
    have hpages := h.pages ho
    rw [List.length_set]
    exact hpages

/-! ### All steps -/

theorem countP_concat (p : Step → Bool) (steps : List Step) (a : Step) :
    (steps ++ [a]).countP p = steps.countP p + (p a).toNat := by
  rw [List.countP_append, List.countP_singleton]
  cases p a <;> rfl

/-- **Every session is on time**: at the tick after its last second the timer opens the one result it
ever opens, whatever is answered, finished, built and taken back meanwhile. -/
theorem onTime (w : TestScreen) (qs : RandomQuestions w) (service : Service) {steps : List Step}
    {t : State} (h : run (step C) (initState w qs service) steps = some t) :
    OnTime w (steps.countP isTick) (steps.countP isFinish) (steps.countP isBack) t := by
  refine run_history (J := fun steps t =>
    OnTime w (steps.countP isTick) (steps.countP isFinish) (steps.countP isBack) t)
    (onTime_initState qs service) (fun steps s a t _ hs hst => ?_) h
  rw [countP_concat, countP_concat, countP_concat]
  exact onTime_step hs hst

/-- A test of one minute. -/
def minute : TestScreen := { sumScreen with isTimerEnabled := true, testDuration := 1 }

theorem onTime_minute :
    ∃ t, run (step compact) (initState minute ⟨[sum], List.Perm.refl _⟩ { testResults := [], prefs := none })
      (.tapOption sum "4" :: List.replicate 61 .tick) = some t ∧ OnTime minute 61 0 0 t := by
  have hrun : ∃ t, run (step compact) (initState minute ⟨[sum], List.Perm.refl _⟩
      { testResults := [], prefs := none }) (.tapOption sum "4" :: List.replicate 61 .tick) = some t :=
    ⟨_, rfl⟩
  obtain ⟨t, ht⟩ := hrun
  exact ⟨t, ht, onTime minute _ _ ht⟩

end KamuSinavi.Session.Timer
