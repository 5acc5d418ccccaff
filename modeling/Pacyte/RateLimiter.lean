/-
# The rate limiter

`RateLimiter` of `src/api/middleware.rs`.  It keeps, for every client, the times of the accepted
checks, and drops those that are older than the window at the client's next check.

Dropping them changes nothing that is asked later: what counts at a time and is kept agrees with
what counts and was ever accepted (`SameWithin`).  From this the limiter is a true sliding window
(`slidingWindow`).
-/
import Pacyte.MapEntries
import Pacyte.Runs

/-- `RateLimiter`; times are in nanoseconds. -/
structure RateLimiter where
  requests : Map String (List ℕ)
  maxRequests : UInt32
  windowSecs : UInt64

namespace RateLimiter

/-! ## The limiter -/

/-- `RateLimiter::new`. -/
def new (maxRequests : UInt32) (windowSecs : UInt64) : RateLimiter := ⟨∅, maxRequests, windowSecs⟩

/-- `Duration::from_secs(self.window_secs)`. -/
def window (limiter : RateLimiter) : ℕ := limiter.windowSecs.toNat * 1000000000

/-- The kept times of a client. -/
def times (limiter : RateLimiter) (ip : String) : List ℕ := (limiter.requests.lookup ip).getD []

/-- The times that are less than a window before `now`. -/
def recent (window now : ℕ) (times : List ℕ) : List ℕ := times.filter fun t => now - t < window

/-- `check`, at the time `now`. -/
def check (ip : String) (now : ℕ) (limiter : RateLimiter) : Bool × RateLimiter :=
  let entry := recent limiter.window now (limiter.times ip)
  if limiter.maxRequests.toNat ≤ entry.length then
    (false, { limiter with requests := limiter.requests.insert ip entry })
  else (true, { limiter with requests := limiter.requests.insert ip (entry ++ [now]) })

/-- A check of a client at a time. -/
structure Check where
  ip : String
  time : ℕ

/-- The answer to a check. -/
def Check.answer (c : Check) (limiter : RateLimiter) : Bool := (check c.ip c.time limiter).1

/-- The limiter after a check. -/
def Check.after (c : Check) (limiter : RateLimiter) : RateLimiter := (check c.ip c.time limiter).2

/-- The times of the accepted checks of a client in a run. -/
def accepted (ip : String) : RateLimiter → List Check → List ℕ
  | _, [] => []
  | limiter, c :: rest =>
    (if c.ip = ip ∧ c.answer limiter = true then [c.time] else []) ++
      accepted ip (c.after limiter) rest

/-- The answers to the checks of a client in a run. -/
def answers (ip : String) : RateLimiter → List Check → List Bool
  | _, [] => []
  | limiter, c :: rest =>
    (if c.ip = ip then [c.answer limiter] else []) ++ answers ip (c.after limiter) rest

/-! ## Times that count the same from now on -/

/-- From a time on, the same times count. -/
def SameWithin (window start : ℕ) (times times' : List ℕ) : Prop :=
  ∀ now, start ≤ now → recent window now times = recent window now times'

namespace SameWithin

variable {window start later : ℕ} {l l' l'' : List ℕ}

theorem refl (window start : ℕ) (l : List ℕ) : SameWithin window start l l := fun _ _ => rfl

theorem symm (h : SameWithin window start l l') : SameWithin window start l' l :=
  fun now hnow => (h now hnow).symm

theorem trans (h : SameWithin window start l l') (h' : SameWithin window start l' l'') :
    SameWithin window start l l'' := fun now hnow => (h now hnow).trans (h' now hnow)

theorem mono (h : SameWithin window start l l') (hle : start ≤ later) :
    SameWithin window later l l' := fun now hnow => h now (hle.trans hnow)

theorem append (h : SameWithin window start l l') (m : List ℕ) :
    SameWithin window start (l ++ m) (l' ++ m) := by
  intro now hnow
  unfold recent
  rw [List.filter_append, List.filter_append]
  exact congrArg (· ++ _) (h now hnow)

/-- What does not count now does not count later. -/
theorem recent_left (window start : ℕ) (l : List ℕ) :
    SameWithin window start (recent window start l) l := by
  intro now hnow
  unfold recent
  rw [List.filter_filter]
  apply List.filter_congr
  intro t _
  rw [Bool.and_eq_left_iff_imp, decide_eq_true_eq, decide_eq_true_eq]
  intro ht
  omega

end SameWithin

/-! ## One check -/

variable {limiter limiter' : RateLimiter}

theorem answer_eq (c : Check) (limiter : RateLimiter) : c.answer limiter =
    !decide (limiter.maxRequests.toNat ≤
      (recent limiter.window c.time (limiter.times c.ip)).length) := by
  unfold Check.answer check
  dsimp only
  split_ifs with h
  · rw [decide_eq_true h]
    rfl
  · rw [decide_eq_false h]
    rfl

@[simp] theorem maxRequests_after (c : Check) (limiter : RateLimiter) :
    (c.after limiter).maxRequests = limiter.maxRequests := by
  unfold Check.after check
  dsimp only
  split_ifs <;> rfl

@[simp] theorem windowSecs_after (c : Check) (limiter : RateLimiter) :
    (c.after limiter).windowSecs = limiter.windowSecs := by
  unfold Check.after check
  dsimp only
  split_ifs <;> rfl

@[simp] theorem window_after (c : Check) (limiter : RateLimiter) :
    (c.after limiter).window = limiter.window := by
  unfold window
  rw [windowSecs_after]

theorem times_insert (limiter : RateLimiter) (ip ip' : String) (entry : List ℕ) :
    times { limiter with requests := limiter.requests.insert ip entry } ip' =
      if ip' = ip then entry else limiter.times ip' := by
  unfold times
  rw [Map.getD_lookup_insert]

/-- The kept times of a client after a check. -/
theorem times_after (c : Check) (limiter : RateLimiter) (ip : String) :
    (c.after limiter).times ip =
      if ip = c.ip then recent limiter.window c.time (limiter.times ip) ++
        (if c.answer limiter = true then [c.time] else [])
      else limiter.times ip := by
  rw [answer_eq]
  unfold Check.after check
  dsimp only
  by_cases hfull : limiter.maxRequests.toNat ≤
      (recent limiter.window c.time (limiter.times c.ip)).length
  · rw [if_pos hfull, times_insert, decide_eq_true hfull, if_neg (show ¬(!true) = true by decide),
      List.append_nil]
    split_ifs with hip
    · rw [hip]
    · rfl
  · rw [if_neg hfull, times_insert, decide_eq_false hfull, if_pos (show (!false) = true by decide)]
    split_ifs with hip
    · rw [hip]
    · rfl

/-- From the time of a check on, what counts for a client is what counted before, and the check if
it is the client's and was accepted. -/
theorem sameWithin_after (c : Check) (limiter : RateLimiter) (ip : String) :
    SameWithin limiter.window c.time ((c.after limiter).times ip)
      (limiter.times ip ++ if c.ip = ip ∧ c.answer limiter = true then [c.time] else []) := by
  rw [times_after]
  by_cases hip : ip = c.ip
  · rw [if_pos hip, if_congr (and_iff_right hip.symm) rfl rfl]
    exact (SameWithin.recent_left _ _ _).append _
  · rw [if_neg hip, if_neg fun h => hip h.1.symm, List.append_nil]
    exact SameWithin.refl _ _ _

/-! ## Runs -/

@[simp] theorem maxRequests_run (limiter : RateLimiter) (checks : List Check) :
    (Runs.run Check.after limiter checks).maxRequests = limiter.maxRequests :=
  Runs.invariant (I := fun l => l.maxRequests = limiter.maxRequests)
    (fun l c h => (maxRequests_after c l).trans h) rfl checks

@[simp] theorem window_run (limiter : RateLimiter) (checks : List Check) :
    (Runs.run Check.after limiter checks).window = limiter.window :=
  Runs.invariant (I := fun l => l.window = limiter.window)
    (fun l c h => (window_after c l).trans h) rfl checks

theorem accepted_append (ip : String) (limiter : RateLimiter) (done rest : List Check) :
    accepted ip limiter (done ++ rest) =
      accepted ip limiter done ++ accepted ip (Runs.run Check.after limiter done) rest := by
  induction done generalizing limiter with
  | nil => rfl
  | cons c done ih => rw [List.cons_append, accepted, accepted, ih, List.append_assoc, Runs.run_cons]

/-- What is kept counts as what was accepted. -/
theorem times_run (ip : String) (limiter : RateLimiter) (checks : List Check) {start : ℕ}
    (h : ∀ c ∈ checks, c.time ≤ start) :
    SameWithin limiter.window start ((Runs.run Check.after limiter checks).times ip)
      (limiter.times ip ++ accepted ip limiter checks) := by
  induction checks generalizing limiter with
  | nil =>
      rw [accepted, List.append_nil]
      exact SameWithin.refl _ _ _
  | cons c rest ih =>
      have hrest := ih (c.after limiter) fun c' hc' => h c' (List.mem_cons_of_mem c hc')
      have hfirst := (sameWithin_after c limiter ip).mono (h c List.mem_cons_self)
      rw [window_after] at hrest
      rw [Runs.run_cons, accepted, ← List.append_assoc]
      exact hrest.trans (hfirst.append _)

/-- The checks of a run whose times do not decrease are not later than what comes after them. -/
theorem time_le_of_append {done rest : List Check} {c : Check}
    (h : (done ++ c :: rest).Pairwise fun c c' => c.time ≤ c'.time) :
    ∀ c' ∈ done, c'.time ≤ c.time := fun c' hc' =>
  (List.pairwise_append.mp h).2.2 c' hc' c List.mem_cons_self

/-- A check is refused exactly if the client used up its requests less than a window before. -/
theorem refused_iff (maxRequests : UInt32) (windowSecs : UInt64) {done rest : List Check}
    {c : Check} (h : (done ++ c :: rest).Pairwise fun c c' => c.time ≤ c'.time) :
    c.answer (Runs.run Check.after (new maxRequests windowSecs) done) = false ↔
      maxRequests.toNat ≤ (recent (new maxRequests windowSecs).window c.time
        (accepted c.ip (new maxRequests windowSecs) done)).length := by
  have hkept := times_run c.ip (new maxRequests windowSecs) done (time_le_of_append h) c.time le_rfl
  rw [answer_eq, Bool.not_eq_false', decide_eq_true_eq, maxRequests_run, window_run, hkept]
  rfl

/-- The times of a list in the interval of a length from a start. -/
def inInterval (start length : ℕ) (times : List ℕ) : List ℕ :=
  times.filter fun t => start ≤ t ∧ t < start + length

/-- What is in an interval of one window with `now` counts at `now`. -/
theorem length_inInterval_le {start window now : ℕ} (h : now < start + window) (l : List ℕ) :
    (inInterval start window l).length ≤ (recent window now l).length := by
  unfold inInterval recent
  apply List.Sublist.length_le
  apply List.monotone_filter_right
  intro t ht
  rw [decide_eq_true_eq] at ht ⊢
  omega

/-- An interval of one window holds no more accepted checks of a client than are allowed. -/
theorem accepted_le (maxRequests : UInt32) (windowSecs : UInt64) (ip : String) (start : ℕ)
    (checks : List Check) (h : checks.Pairwise fun c c' => c.time ≤ c'.time) :
    (inInterval start (new maxRequests windowSecs).window
      (accepted ip (new maxRequests windowSecs) checks)).length ≤ maxRequests.toNat := by
  -- The last check is the one that can make an interval too full.
  induction checks using List.reverseRecOn with
  | nil => exact Nat.zero_le _
  | append_singleton done c ih =>
      have hdone := ih (List.pairwise_append.mp h).1
      have hrefused := refused_iff maxRequests windowSecs h
      rw [accepted_append, accepted, accepted, List.append_nil]
      unfold inInterval at *
      rw [List.filter_append, List.length_append]
      split_ifs with hc
      · by_cases hin : start ≤ c.time ∧ c.time < start + (new maxRequests windowSecs).window
        · rw [hc.2] at hrefused
          have hcount := length_inInterval_le hin.2
            (accepted ip (new maxRequests windowSecs) done)
          have hroom : ¬ maxRequests.toNat ≤ (recent (new maxRequests windowSecs).window c.time
              (accepted ip (new maxRequests windowSecs) done)).length := by
            rw [← hc.1]
            exact fun hle => Bool.noConfusion (hrefused.mpr hle)
          have hone := List.length_filter_le
            (fun t => decide (start ≤ t ∧ t < start + (new maxRequests windowSecs).window)) [c.time]
          rw [List.length_singleton] at hone
          unfold inInterval at hcount
          omega
        · rw [List.filter_cons_of_neg (by rwa [decide_eq_true_eq]), List.filter_nil]
          exact hdone
      · exact hdone

/-! ## Later answers -/

/-- Limiters for which the same times of a client count give it the same answers. -/
theorem answers_congr (ip : String) {start : ℕ} (checks : List Check)
    (hmax : limiter.maxRequests = limiter'.maxRequests) (hwindow : limiter.window = limiter'.window)
    (hsame : SameWithin limiter.window start (limiter.times ip) (limiter'.times ip))
    (hstart : ∀ c ∈ checks, start ≤ c.time)
    (hpairwise : checks.Pairwise fun c c' => c.time ≤ c'.time) :
    answers ip limiter checks = answers ip limiter' checks := by
  induction checks generalizing limiter limiter' start with
  | nil => rfl
  | cons c rest ih =>
      rw [List.pairwise_cons] at hpairwise
      have hstep := hsame.mono (hstart c List.mem_cons_self)
      have hanswer : c.ip = ip → c.answer limiter = c.answer limiter' := by
        intro hip
        subst hip
        rw [answer_eq, answer_eq, hmax, hstep c.time le_rfl, hwindow]
      have hafter := sameWithin_after c limiter ip
      have hafter' := sameWithin_after c limiter' ip
      rw [← hwindow] at hafter'
      have hadded : (if c.ip = ip ∧ c.answer limiter = true then [c.time] else []) =
          if c.ip = ip ∧ c.answer limiter' = true then [c.time] else [] :=
        if_congr (and_congr_right fun hip => by rw [hanswer hip]) rfl rfl
      rw [hadded] at hafter
      have hrest : answers ip (c.after limiter) rest = answers ip (c.after limiter') rest := ih
        (by rw [maxRequests_after, maxRequests_after, hmax])
        (by rw [window_after, window_after, hwindow])
        (by
          rw [window_after]
          exact (hafter.trans (hstep.append _)).trans hafter'.symm)
        hpairwise.1 hpairwise.2
      rw [answers, answers, hrest]
      split_ifs with hip
      · rw [hanswer hip]
      · rfl

/-- A check that is refused or of another client does not change a client's later answers. -/
theorem answers_after (ip : String) (c : Check) (rest : List Check)
    (hc : c.ip ≠ ip ∨ c.answer limiter = false)
    (h : (c :: rest).Pairwise fun c c' => c.time ≤ c'.time) :
    answers ip (c.after limiter) rest = answers ip limiter rest := by
  rw [List.pairwise_cons] at h
  have hsame := sameWithin_after c limiter ip
  have hnot : ¬ (c.ip = ip ∧ c.answer limiter = true) := by
    rintro ⟨hip, haccepted⟩
    rcases hc with hother | hrefused
    · exact hother hip
    · rw [haccepted] at hrefused
      cases hrefused
  rw [if_neg hnot, List.append_nil] at hsame
  refine answers_congr ip rest (maxRequests_after c limiter) (window_after c limiter) ?_ h.1 h.2
  rw [window_after]
  exact hsame

/-- **The limiter is a sliding window**: in every run of checks at times that do not decrease, an
interval of one window holds no more accepted checks of a client than are allowed; a check is
refused exactly if that many checks of its client were accepted less than a window before; and a
check that is refused or of another client does not change the later answers. -/
theorem slidingWindow (maxRequests : UInt32) (windowSecs : UInt64) (checks : List Check)
    (h : checks.Pairwise fun c c' => c.time ≤ c'.time) :
    (∀ ip start, (inInterval start (new maxRequests windowSecs).window
      (accepted ip (new maxRequests windowSecs) checks)).length ≤ maxRequests.toNat) ∧
    ∀ done c rest, checks = done ++ c :: rest →
      (c.answer (Runs.run Check.after (new maxRequests windowSecs) done) = false ↔
        maxRequests.toNat ≤ (recent (new maxRequests windowSecs).window c.time
          (accepted c.ip (new maxRequests windowSecs) done)).length) ∧
      ∀ ip, c.ip ≠ ip ∨ c.answer (Runs.run Check.after (new maxRequests windowSecs) done) = false →
        answers ip (Runs.run Check.after (new maxRequests windowSecs) (done ++ [c])) rest =
          answers ip (Runs.run Check.after (new maxRequests windowSecs) done) rest := by
  refine ⟨fun ip start => accepted_le maxRequests windowSecs ip start checks h, ?_⟩
  rintro done c rest rfl
  refine ⟨refused_iff maxRequests windowSecs h, fun ip hc => ?_⟩
  rw [Runs.run_append]
  exact answers_after ip c rest hc (List.pairwise_append.mp h).2.1

/-- One request in ten seconds: the second of three checks is refused. -/
theorem slidingWindow_three :
    ([⟨"a", 0⟩, ⟨"a", 9999999999⟩, ⟨"a", 10000000000⟩] : List Check).Pairwise
        (fun c c' => c.time ≤ c'.time) ∧
      (inInterval 1 (new 1 10).window (accepted "a" (new 1 10)
        [⟨"a", 0⟩, ⟨"a", 9999999999⟩, ⟨"a", 10000000000⟩])).length ≤ 1 :=
  ⟨by decide, (slidingWindow 1 10 _ (by decide)).1 "a" 1⟩

end RateLimiter
