import Mathlib.Algebra.GroupWithZero.Nat
import Mathlib.Order.Monotone.Defs
import Mathlib.Order.Lattice
import StudioWorker.Text

/-!
# DaemonLink — when the UI starts a daemon (`src/daemon_link.rs`)

A tick polls the daemon; where none answers it asks who holds the daemon lock, and only where
nobody does it reads the clock.  `Tick` is what one tick meets: what the poll returns, what the
lock's check answers, what the clock shows, what a start would return.  Times are nanoseconds.

* `Poller.tick`, `Poller.recover`: as in the source; the `Bool` is whether a start was attempted.
* `pollerAt`, `startsAt`: the poller before a tick, and whether that tick attempts a start.
* `startsAt_spaced_and_recurring`: what holds of every run under a clock that never goes back.
-/

namespace StudioWorker.DaemonLink

/-- 10 s -/
def spawnBackoff : ℕ := 10 * 10 ^ 9

/-- 20 s -/
def spawnGrace : ℕ := 20 * 10 ^ 9

inductive LinkState where
  | connecting
  | connected (url version : Text)
  | starting (error : Text)
  | unreachable (error : Text) (startedDaemon : Bool)

structure Tick where
  poll : Except Text LinkState
  /-- `starter.is_running()` -/
  isRunning : Except Text Bool
  now : ℕ
  /-- `starter.start()`: the process id. -/
  start : Except Text ℕ

structure Poller where
  lastSpawn : Option ℕ
  spawnBackoff : ℕ
  absentSince : Option ℕ
  spawnGrace : ℕ
  link : LinkState

def Poller.new : Poller := ⟨none, DaemonLink.spawnBackoff, none, DaemonLink.spawnGrace, .connecting⟩

def Poller.withSpawnGrace (poller : Poller) (grace : ℕ) : Poller :=
  { poller with spawnGrace := grace }

def Poller.withSpawnBackoff (poller : Poller) (backoff : ℕ) : Poller :=
  { poller with spawnBackoff := backoff }

/-- `Poller::recover`: the poller, the state of the link and whether a start was attempted. -/
def Poller.recover (poller : Poller) (error : Text) (t : Tick) : Poller × LinkState × Bool :=
  match t.isRunning with
  | .ok true => ({ poller with absentSince := none }, .starting error, false)
  | .ok false =>
    let now := t.now
    let since := poller.absentSince.getD now
    let poller := { poller with absentSince := some since }
    -- `Instant::duration_since` is zero where `since` is later
    if now - since < poller.spawnGrace then (poller, .unreachable error false, false)
    else
      let due := poller.lastSpawn.all fun last => poller.spawnBackoff ≤ now - last
      if !due then (poller, .unreachable error true, false)
      else
        let poller := { poller with lastSpawn := some now }
        match t.start with
        | .ok _ => (poller, .unreachable error true, true)
        | .error e =>
          (poller, .unreachable (error ++ "; starting a daemon failed: ".toList ++ e) false, true)
  | .error e => (poller, .unreachable (error ++ "; daemon lock unreadable: ".toList ++ e) false, false)

def Poller.tick (poller : Poller) (t : Tick) : Poller × Bool :=
  match t.poll with
  | .ok state => ({ poller with absentSince := none, link := state }, false)
  | .error err =>
    let (poller, state, started) := poller.recover err t
    ({ poller with link := state }, started)

/-- A daemon answers, or holds the lock. -/
def Tick.FindsDaemon (t : Tick) : Prop := t.poll.isOk = true ∨ t.isRunning = .ok true

/-- None answers, and nobody holds the lock. -/
def Tick.FindsNone (t : Tick) : Prop := t.poll.isOk = false ∧ t.isRunning = .ok false

variable (poller : Poller) (ticks : ℕ → Tick)

/-- The poller before tick `n`. -/
def pollerAt : ℕ → Poller
  | 0 => poller
  | n + 1 => ((pollerAt n).tick (ticks n)).1

/-- Tick `n` attempts a start. -/
def startsAt (n : ℕ) : Prop := ((pollerAt poller ticks n).tick (ticks n)).2 = true

/-! ## One tick -/

variable {poller ticks} {t : Tick}

theorem tick_of_findsDaemon (h : t.FindsDaemon) :
    (poller.tick t).1.absentSince = none ∧ (poller.tick t).1.lastSpawn = poller.lastSpawn ∧
      (poller.tick t).2 = false := by
  rw [Poller.tick]
  cases hpoll : t.poll with
  | ok state => exact ⟨rfl, rfl, rfl⟩
  | error err =>
    have hrunning : t.isRunning = .ok true :=
      h.resolve_left (by simp [hpoll, Except.isOk, Except.toBool])
    simp [Poller.recover, hrunning]

/-- Where nothing was found out, the timers stay as they are. -/
theorem tick_of_unreadable (hdaemon : ¬ t.FindsDaemon) (hnone : ¬ t.FindsNone) :
    (poller.tick t).1.absentSince = poller.absentSince ∧
      (poller.tick t).1.lastSpawn = poller.lastSpawn ∧ (poller.tick t).2 = false := by
  rw [Poller.tick]
  cases hpoll : t.poll with
  | ok state => exact absurd (Or.inl (by simp [hpoll, Except.isOk, Except.toBool])) hdaemon
  | error err =>
    cases hrunning : t.isRunning with
    | error e => simp [Poller.recover, hrunning]
    | ok running =>
      cases running with
      | true => exact absurd (Or.inr hrunning) hdaemon
      | false =>
        exact absurd ⟨by simp [hpoll, Except.isOk, Except.toBool], hrunning⟩ hnone

/-- Where there is none, the absence begins if it had not, and a start is attempted when it is old
enough and so is the last start. -/
theorem tick_of_findsNone (h : t.FindsNone) :
    (poller.tick t).1.absentSince = some (poller.absentSince.getD t.now) ∧
      (poller.tick t).1.lastSpawn =
        (if (poller.tick t).2 then some t.now else poller.lastSpawn) ∧
      ((poller.tick t).2 = true ↔
        poller.spawnGrace ≤ t.now - poller.absentSince.getD t.now ∧
          ∀ last ∈ poller.lastSpawn, poller.spawnBackoff ≤ t.now - last) := by
  obtain ⟨hok, hrunning⟩ := h
  have hdue : (poller.lastSpawn.all fun last => poller.spawnBackoff ≤ t.now - last) = true ↔
      ∀ last ∈ poller.lastSpawn, poller.spawnBackoff ≤ t.now - last := by
    cases poller.lastSpawn with
    | none => simp
    | some last => simp
  rw [Poller.tick]
  cases hpoll : t.poll with
  | ok state => simp [hpoll, Except.isOk, Except.toBool] at hok
  | error err =>
    rw [← hdue]
    by_cases hgrace : t.now - poller.absentSince.getD t.now < poller.spawnGrace
    · have hyoung : ¬ poller.spawnGrace ≤ t.now - poller.absentSince.getD t.now := by omega
      simp [Poller.recover, hrunning, hgrace, hyoung]
    · have hold : poller.spawnGrace ≤ t.now - poller.absentSince.getD t.now := by omega
      cases hlast : poller.lastSpawn.all fun last => poller.spawnBackoff ≤ t.now - last with
      | false => simp [Poller.recover, hrunning, hgrace, hlast]
      | true =>
        cases hstart : t.start with
        | ok pid => simp [Poller.recover, hrunning, hgrace, hold, hlast, hstart]
        | error e => simp [Poller.recover, hrunning, hgrace, hold, hlast, hstart]

/-- The two durations are never changed. -/
theorem tick_durations (poller : Poller) (t : Tick) :
    (poller.tick t).1.spawnGrace = poller.spawnGrace ∧
      (poller.tick t).1.spawnBackoff = poller.spawnBackoff := by
  have hrecover : ∀ err, (poller.recover err t).1.spawnGrace = poller.spawnGrace ∧
      (poller.recover err t).1.spawnBackoff = poller.spawnBackoff := by
    intro err
    unfold Poller.recover
    dsimp only
    repeat' split
    all_goals exact ⟨rfl, rfl⟩
  rw [Poller.tick]
  cases hpoll : t.poll with
  | ok state => exact ⟨rfl, rfl⟩
  | error err => exact hrecover err

/-! ## Every run -/

section Runs

variable (poller ticks)

theorem pollerAt_durations (n : ℕ) :
    (pollerAt poller ticks n).spawnGrace = poller.spawnGrace ∧
      (pollerAt poller ticks n).spawnBackoff = poller.spawnBackoff := by
  induction n with
  | zero => exact ⟨rfl, rfl⟩
  | succ n ih =>
    obtain ⟨hgrace, hbackoff⟩ := tick_durations (pollerAt poller ticks n) (ticks n)
    exact ⟨hgrace.trans ih.1, hbackoff.trans ih.2⟩

end Runs

theorem startsAt_findsNone {n : ℕ} (h : startsAt poller ticks n) : (ticks n).FindsNone := by
  by_contra hnone
  by_cases hdaemon : (ticks n).FindsDaemon
  · rw [startsAt, (tick_of_findsDaemon hdaemon).2.2] at h
    cases h
  · rw [startsAt, (tick_of_unreadable hdaemon hnone).2.2] at h
    cases h

theorem lastSpawn_pollerAt_succ {n : ℕ} (h : ¬ startsAt poller ticks n) :
    (pollerAt poller ticks (n + 1)).lastSpawn = (pollerAt poller ticks n).lastSpawn := by
  rw [pollerAt]
  by_cases hdaemon : (ticks n).FindsDaemon
  · exact (tick_of_findsDaemon hdaemon).2.1
  · by_cases hnone : (ticks n).FindsNone
    · exact (tick_of_findsNone hnone).2.1.trans (if_neg h)
    · exact (tick_of_unreadable hdaemon hnone).2.1

theorem lastSpawn_of_starts {n : ℕ} (h : startsAt poller ticks n) :
    (pollerAt poller ticks (n + 1)).lastSpawn = some (ticks n).now :=
  (tick_of_findsNone (startsAt_findsNone h)).2.1.trans (if_pos h)

/-- The absence that is remembered began with a tick that found none, and no daemon was found
since. -/
theorem exists_of_absentSince (hnew : poller.absentSince = none) (n : ℕ) :
    ∀ since ∈ (pollerAt poller ticks n).absentSince, ∃ j < n, (ticks j).FindsNone ∧
      (ticks j).now = since ∧ ∀ k, j ≤ k → k < n → ¬ (ticks k).FindsDaemon := by
  induction n with
  | zero =>
    intro since h
    rw [pollerAt, hnew] at h
    cases h
  | succ n ih =>
    intro since h
    rw [pollerAt] at h
    by_cases hdaemon : (ticks n).FindsDaemon
    · rw [(tick_of_findsDaemon hdaemon).1] at h
      cases h
    · have hkeep : ∀ since ∈ (pollerAt poller ticks n).absentSince, ∃ j < n + 1,
          (ticks j).FindsNone ∧ (ticks j).now = since ∧
            ∀ k, j ≤ k → k < n + 1 → ¬ (ticks k).FindsDaemon := by
        intro since hsince
        obtain ⟨j, hj, hnone, hnow, hquiet⟩ := ih since hsince
        refine ⟨j, hj.trans (Nat.lt_succ_self n), hnone, hnow, fun k hjk hk => ?_⟩
        rcases Nat.lt_succ_iff_lt_or_eq.mp hk with hlt | rfl
        · exact hquiet k hjk hlt
        · exact hdaemon
      by_cases hnone : (ticks n).FindsNone
      · rw [(tick_of_findsNone hnone).1] at h
        cases habsent : (pollerAt poller ticks n).absentSince with
        | some old =>
          rw [habsent] at h
          exact hkeep since (by rw [habsent]; exact h)
        | none =>
          rw [habsent] at h
          refine ⟨n, Nat.lt_succ_self n, hnone, Option.some_inj.mp h, fun k hk hk' => ?_⟩
          obtain rfl : k = n := by omega
          exact hdaemon
      · rw [(tick_of_unreadable hdaemon hnone).1] at h
        exact hkeep since h

theorem exists_of_lastSpawn (hnew : poller.lastSpawn = none) (n : ℕ) :
    ∀ last ∈ (pollerAt poller ticks n).lastSpawn, ∃ j < n, (ticks j).now = last := by
  induction n with
  | zero =>
    intro last h
    rw [pollerAt, hnew] at h
    cases h
  | succ n ih =>
    intro last h
    by_cases hstart : startsAt poller ticks n
    · rw [lastSpawn_of_starts hstart] at h
      exact ⟨n, Nat.lt_succ_self n, Option.some_inj.mp h⟩
    · rw [lastSpawn_pollerAt_succ hstart] at h
      obtain ⟨j, hj, hnow⟩ := ih last h
      exact ⟨j, hj.trans (Nat.lt_succ_self n), hnow⟩

/-- The last start is remembered, and never forgotten. -/
theorem lastSpawn_of_startsAt (hclock : Monotone fun n => (ticks n).now) {i n : ℕ} (hin : i < n)
    (h : startsAt poller ticks i) :
    ∃ last, (pollerAt poller ticks n).lastSpawn = some last ∧ (ticks i).now ≤ last := by
  induction n with
  | zero => omega
  | succ n ih =>
    by_cases hstart : startsAt poller ticks n
    · exact ⟨(ticks n).now, lastSpawn_of_starts hstart, hclock (Nat.lt_succ_iff.mp hin)⟩
    · rcases Nat.lt_succ_iff_lt_or_eq.mp hin with hlt | rfl
      · obtain ⟨last, hlast, hle⟩ := ih hlt
        exact ⟨last, (lastSpawn_pollerAt_succ hstart).trans hlast, hle⟩
      · exact absurd h hstart

/-- A start is attempted exactly where both are old enough. -/
theorem startsAt_iff {n : ℕ} (h : (ticks n).FindsNone) :
    startsAt poller ticks n ↔
      poller.spawnGrace ≤ (ticks n).now - (pollerAt poller ticks n).absentSince.getD (ticks n).now ∧
        ∀ last ∈ (pollerAt poller ticks n).lastSpawn,
          poller.spawnBackoff ≤ (ticks n).now - last := by
  obtain ⟨hgrace, hbackoff⟩ := pollerAt_durations poller ticks n
  rw [startsAt, (tick_of_findsNone h).2.2, hgrace, hbackoff]

/-- An absence has lasted the grace before a start. -/
theorem exists_absence (hnew : poller.absentSince = none)
    (hclock : Monotone fun n => (ticks n).now) {i : ℕ} (h : startsAt poller ticks i) :
    ∃ j ≤ i, (ticks j).FindsNone ∧ (ticks j).now + poller.spawnGrace ≤ (ticks i).now ∧
      ∀ k, j ≤ k → k ≤ i → ¬ (ticks k).FindsDaemon := by
  have hnone := startsAt_findsNone h
  have hself : ¬ (ticks i).FindsDaemon := by
    rintro (hok | hrunning)
    · rw [hnone.1] at hok
      cases hok
    · rw [hnone.2] at hrunning
      cases hrunning
  have hgrace := ((startsAt_iff hnone).mp h).1
  cases habsent : (pollerAt poller ticks i).absentSince with
  | none =>
    rw [habsent, Option.getD_none, Nat.sub_self] at hgrace
    refine ⟨i, le_rfl, hnone, by omega, fun k hk hk' => ?_⟩
    obtain rfl : k = i := by omega
    exact hself
  | some since =>
    rw [habsent, Option.getD_some] at hgrace
    obtain ⟨j, hj, hjnone, hnow, hquiet⟩ := exists_of_absentSince hnew i since habsent
    have hle : (ticks j).now ≤ (ticks i).now := hclock hj.le
    refine ⟨j, hj.le, hjnone, by omega, fun k hjk hk => ?_⟩
    rcases hk.lt_or_eq with hlt | rfl
    · exact hquiet k hjk hlt
    · exact hself

theorem starts_spaced (hclock : Monotone fun n => (ticks n).now) {i j : ℕ} (hij : i < j)
    (hi : startsAt poller ticks i) (hj : startsAt poller ticks j) :
    (ticks i).now + poller.spawnBackoff ≤ (ticks j).now := by
  obtain ⟨last, hlast, hle⟩ := lastSpawn_of_startsAt hclock hij hi
  have hdue := ((startsAt_iff (startsAt_findsNone hj)).mp hj).2 last hlast
  have hmono : (ticks i).now ≤ (ticks j).now := hclock hij.le
  omega

/-- While every tick finds none, the absence goes on from where it began. -/
theorem absentSince_of_findsNone {m i : ℕ} (hnone : ∀ k, m ≤ k → k < i → (ticks k).FindsNone)
    (hmi : m < i) :
    (pollerAt poller ticks i).absentSince =
      some ((pollerAt poller ticks m).absentSince.getD (ticks m).now) := by
  induction i with
  | zero => omega
  | succ n ih =>
    have hn := hnone n (by omega) (Nat.lt_succ_self n)
    rw [pollerAt, (tick_of_findsNone hn).1]
    rcases Nat.lt_succ_iff_lt_or_eq.mp hmi with hlt | rfl
    · rw [ih (fun k hk hk' => hnone k hk (by omega)) hlt, Option.getD_some]
    · rfl

theorem lastSpawn_of_not_startsAt {m i : ℕ}
    (hnot : ∀ k, m ≤ k → k < i → ¬ startsAt poller ticks k) (hmi : m ≤ i) :
    (pollerAt poller ticks i).lastSpawn = (pollerAt poller ticks m).lastSpawn := by
  induction i with
  | zero =>
    obtain rfl : m = 0 := by omega
    rfl
  | succ n ih =>
    rcases hmi.lt_or_eq with hlt | rfl
    · rw [lastSpawn_pollerAt_succ (hnot n (by omega) (Nat.lt_succ_self n))]
      exact ih (fun k hk hk' => hnot k hk (by omega)) (by omega)
    · rfl

/-- Ticks that find none for as long as the grace and the backoff attempt a start among them. -/
theorem exists_startsAt (habsent : poller.absentSince = none) (hlast : poller.lastSpawn = none)
    (hclock : Monotone fun n => (ticks n).now) {m i : ℕ} (hmi : m ≤ i)
    (hnone : ∀ k, m ≤ k → k ≤ i → (ticks k).FindsNone)
    (hgrace : (ticks m).now + poller.spawnGrace ≤ (ticks i).now)
    (hbackoff : (ticks m).now + poller.spawnBackoff ≤ (ticks i).now) :
    ∃ k, m ≤ k ∧ k ≤ i ∧ startsAt poller ticks k := by
  by_contra hno
  have hnot : ∀ k, m ≤ k → k ≤ i → ¬ startsAt poller ticks k :=
    fun k hmk hki hk => hno ⟨k, hmk, hki, hk⟩
  refine hnot i hmi le_rfl ((startsAt_iff (hnone i hmi le_rfl)).mpr ⟨?_, ?_⟩)
  · have hbegan : (pollerAt poller ticks m).absentSince.getD (ticks m).now ≤ (ticks m).now := by
      cases hm : (pollerAt poller ticks m).absentSince with
      | none => exact le_rfl
      | some since =>
        obtain ⟨j, hj, -, hnow, -⟩ := exists_of_absentSince habsent m since hm
        exact hnow ▸ hclock hj.le
    have hsame : (pollerAt poller ticks i).absentSince.getD (ticks i).now =
        (pollerAt poller ticks m).absentSince.getD (ticks m).now := by
      rcases hmi.lt_or_eq with hlt | rfl
      · rw [absentSince_of_findsNone (fun k hk hk' => hnone k hk hk'.le) hlt, Option.getD_some]
      · rfl
    omega
  · intro last hmem
    rw [lastSpawn_of_not_startsAt (fun k hk hk' => hnot k hk hk'.le) hmi] at hmem
    obtain ⟨j, hj, hnow⟩ := exists_of_lastSpawn hlast m last hmem
    have hle : (ticks j).now ≤ (ticks m).now := hclock hj.le
    omega

/-- A start is attempted only after an absence as long as the grace, two starts are a backoff
apart, and while every tick finds none and the clock goes on there is always another. -/
theorem startsAt_spaced_and_recurring (grace backoff : ℕ) (ticks : ℕ → Tick)
    (hclock : Monotone fun n => (ticks n).now) :
    let poller := (Poller.new.withSpawnGrace grace).withSpawnBackoff backoff
    (∀ i, startsAt poller ticks i →
      (∃ j ≤ i, (ticks j).FindsNone ∧ (ticks j).now + grace ≤ (ticks i).now ∧
        ∀ k, j ≤ k → k ≤ i → ¬ (ticks k).FindsDaemon) ∧
      ∀ k ≤ i, (ticks i).now < (ticks k).now + grace → ¬ (ticks k).FindsDaemon) ∧
    (∀ i j, i < j → startsAt poller ticks i → startsAt poller ticks j →
      (ticks i).now + backoff ≤ (ticks j).now) ∧
    (∀ m i, m ≤ i → (∀ k, m ≤ k → k ≤ i → (ticks k).FindsNone) →
      (ticks m).now + grace ≤ (ticks i).now → (ticks m).now + backoff ≤ (ticks i).now →
        ∃ k, m ≤ k ∧ k ≤ i ∧ startsAt poller ticks k) ∧
    ((∃ m, ∀ k, m ≤ k → (ticks k).FindsNone) → (∀ instant, ∃ n, instant ≤ (ticks n).now) →
      ∀ n, ∃ k, n ≤ k ∧ startsAt poller ticks k) := by
  intro poller
  have hrecurring : ∀ m i, m ≤ i → (∀ k, m ≤ k → k ≤ i → (ticks k).FindsNone) →
      (ticks m).now + grace ≤ (ticks i).now → (ticks m).now + backoff ≤ (ticks i).now →
        ∃ k, m ≤ k ∧ k ≤ i ∧ startsAt poller ticks k :=
    fun m i hmi hnone hgrace hbackoff => exists_startsAt rfl rfl hclock hmi hnone hgrace hbackoff
  refine ⟨fun i h => ?_, fun i j hij hi hj => starts_spaced hclock hij hi hj, hrecurring, ?_⟩
  · obtain ⟨j, hj, hnone, hold, hquiet⟩ := exists_absence rfl hclock h
    have hold : (ticks j).now + grace ≤ (ticks i).now := hold
    refine ⟨⟨j, hj, hnone, hold, hquiet⟩, fun k hk hlate => hquiet k ?_ hk⟩
    by_contra hkj
    have hle : (ticks k).now ≤ (ticks j).now := hclock (le_of_not_ge hkj)
    omega
  · rintro ⟨m, hnone⟩ hgoes n
    obtain ⟨i, hi⟩ := hgoes ((ticks (max m n)).now + grace + backoff)
    have hlate : (ticks i).now ≤ (ticks (max i (max m n))).now := hclock (le_max_left _ _)
    obtain ⟨k, hk, -, hstart⟩ := hrecurring (max m n) (max i (max m n)) (le_max_right _ _)
      (fun k hk _ => hnone k ((le_max_left m n).trans hk)) (by omega) (by omega)
    exact ⟨k, (le_max_right m n).trans hk, hstart⟩

/-- A tick a second, and never a daemon. -/
def absentTick (n : ℕ) : Tick := ⟨.error "no daemon".toList, .ok false, n * 10 ^ 9, .ok 7⟩

theorem startsAt_spaced_and_recurring_absentTick :
    ∃ k, 1000 ≤ k ∧ startsAt Poller.new absentTick k := by
  have hclock : Monotone fun n => (absentTick n).now :=
    fun _ _ hmn => Nat.mul_le_mul_right (10 ^ 9) hmn
  have hspec := startsAt_spaced_and_recurring spawnGrace spawnBackoff absentTick hclock
  exact hspec.2.2.2 ⟨0, fun _ _ => ⟨rfl, rfl⟩⟩
    (fun instant => ⟨instant, Nat.le_mul_of_pos_right instant (by decide)⟩) 1000

end StudioWorker.DaemonLink
