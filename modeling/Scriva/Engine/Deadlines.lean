import Scriva.Engine.Sequential

/-!
# Deadlines

A time to live is given in seconds.  It becomes a duration in nanoseconds, which
is added to the clock, and the sum is kept as a signed 64-bit count in which zero
stands for a record that never expires.  Here instants are nanoseconds since the
epoch over the integers, and every conversion to 64 bits is written out.
-/

namespace Scriva.Engine.Deadlines

open Directory Engine.Collection
open Engine.Sequential (smallConfig)

def second : Int := 10 ^ 9

/-- An integer as a signed 64-bit word. -/
def int64 (n : Int) : Int :=
  Int.bmod n (2 ^ 64)

def seconds (n : Int) : Int :=
  int64 (n * second)

/-- The first instant of the year 1, which stands for a time that was not given. -/
def zeroTime : Int :=
  -62135596800 * second

def ttlDeadline (now ttlSeconds : Int) : Int :=
  if ttlSeconds ≤ 0 then zeroTime else now + seconds ttlSeconds

/-- A positive default is cut to whole seconds, which does not make it negative. -/
def setDefaultTTL (cfg : Config) (ttl : Int) : Config :=
  if ttl ≤ 0 then cfg else { cfg with defaultTTL := (seconds (ttl / second)).toNat }

/-- The configuration of a new collection, under that of the server. -/
def createCollection (cfg : Config) (defaultTtlSeconds : Int) : Config :=
  if defaultTtlSeconds > 0 then setDefaultTTL cfg (seconds defaultTtlSeconds) else cfg

/-- How a request says when its record expires: to the server, or to the engine. -/
inductive Given
  | ttlSeconds (n : Int)
  | expiresAt (t : Int)

def Given.explicit (now : Int) : Given → Int
  | .ttlSeconds n => ttlDeadline now n
  | .expiresAt t => t

/-- The deadline that is kept with a record of a collection. -/
def stamped (cfg : Config) (defaultTtlSeconds now : Int) (given : Given) : Int :=
  let explicit := given.explicit now
  int64 (resolveInsertExpiry (createCollection cfg defaultTtlSeconds) now
    (if explicit = zeroTime then none else some explicit))

def isVisible (deadline clock : Int) : Bool :=
  !expired deadline (int64 clock)

/-! ## The deadline over the integers -/

/-- The deadline that a request has of its own. -/
def Given.own (now : Int) : Given → Option Int
  | .ttlSeconds n => if 0 < n then some (now + n * second) else none
  | .expiresAt t => if t = zeroTime then none else some t

def defaultDeadline (cfg : Config) (defaultTtlSeconds now : Int) : Option Int :=
  if 0 < defaultTtlSeconds then some (now + defaultTtlSeconds * second)
  else if 0 < cfg.defaultTTL then some (now + cfg.defaultTTL)
  else none

def deadline (cfg : Config) (defaultTtlSeconds now : Int) (given : Given) : Option Int :=
  (given.own now).or (defaultDeadline cfg defaultTtlSeconds now)

/-- Instants that a signed 64-bit count of nanoseconds can hold. -/
def Representable (t : Int) : Prop :=
  -2 ^ 63 ≤ t ∧ t < 2 ^ 63

/-- A record with this deadline expires, and is visible exactly before `t`. -/
def Keeps (deadline t : Int) : Prop :=
  deadline ≠ 0 ∧ ∀ clock, Representable clock → (isVisible deadline clock = true ↔ clock < t)

variable {t n now : Int} {cfg : Config} {given : Given} {defaultTtlSeconds : Int}

theorem int64_of_representable (held : Representable t) : int64 t = t := by
  obtain ⟨low, high⟩ := held
  rw [int64, Int.bmod_def]
  omega

theorem representable_int64 (n : Int) : Representable (int64 n) := by
  rw [Representable, int64, Int.bmod_def]
  omega

theorem isVisible_iff {clock : Int} (expires : n ≠ 0) (readable : Representable clock) :
    isVisible n clock = true ↔ clock < n := by
  simp [isVisible, expired, int64_of_representable readable, expires]

/-- A deadline is kept exactly if it is the one that is stamped. -/
theorem keeps_iff (low : -2 ^ 63 ≤ t) (held : Representable n) : Keeps n t ↔ n = t ∧ n ≠ 0 := by
  constructor
  · rintro ⟨expires, exact⟩
    have same (clock : Int) (readable : Representable clock) : clock < n ↔ clock < t :=
      (isVisible_iff expires readable).symm.trans (exact clock readable)
    have above : t ≤ n := not_lt.mp ((same n held).not.mp (lt_irrefl n))
    refine ⟨le_antisymm ?_ above, expires⟩
    by_contra apart
    have inside : t < n := not_le.mp apart
    exact lt_irrefl t ((same t ⟨low, inside.trans held.2⟩).mp inside)
  · rintro ⟨rfl, expires⟩
    exact ⟨expires, fun clock readable => isVisible_iff expires readable⟩

/-- No clock reads an instant before the first one that can be held, so such a
deadline is kept exactly by the stamp that hides the record from every clock. -/
theorem keeps_early_iff (early : t < -2 ^ 63) (held : Representable n) :
    Keeps n t ↔ n = -2 ^ 63 := by
  constructor
  · rintro ⟨expires, exact⟩
    by_contra apart
    have first : Representable (-2 ^ 63) := ⟨le_rfl, by decide⟩
    have after : -2 ^ 63 < n := lt_of_le_of_ne held.1 (Ne.symm apart)
    exact lt_asymm early ((exact _ first).mp ((isVisible_iff expires first).mpr after))
  · rintro rfl
    refine ⟨by decide, fun clock readable => ?_⟩
    rw [isVisible_iff (by decide) readable]
    exact iff_of_false (not_lt.mpr readable.1) (not_lt.mpr (early.le.trans readable.1))

/-- A deadline that is stamped in 64 bits is kept if it can be held and is not the
epoch, or if it lies before every clock and wraps around to the first instant. -/
theorem keeps_int64_iff {fits : Prop} (fit : fits) :
    Keeps (int64 t) t ↔
      (Representable t ∧ t ≠ 0 ∧ fits) ∨ (t < -2 ^ 63 ∧ t % 2 ^ 64 = 2 ^ 63) := by
  rcases lt_or_ge t (-2 ^ 63) with early | low
  · have wraps : int64 t = -2 ^ 63 ↔ t % 2 ^ 64 = 2 ^ 63 := by
      rw [int64, Int.bmod_def]
      omega
    rw [keeps_early_iff early (representable_int64 t), wraps]
    constructor
    · intro same
      exact Or.inr ⟨early, same⟩
    · rintro (⟨held, -⟩ | ⟨-, same⟩)
      · exact absurd held.1 (not_le.mpr early)
      · exact same
  · rw [keeps_iff low (representable_int64 t)]
    constructor
    · rintro ⟨exact, expires⟩
      rw [exact] at expires
      have held := representable_int64 t
      rw [exact] at held
      exact Or.inl ⟨held, expires, fit⟩
    · rintro (⟨held, expires, -⟩ | ⟨early, -⟩)
      · rw [int64_of_representable held]
        exact ⟨rfl, expires⟩
      · exact absurd early (not_lt.mpr low)

/-- A deadline of the request's own is stamped in 64 bits. -/
theorem stamped_own (clock : Representable now) (own : given.own now = some t) :
    stamped cfg defaultTtlSeconds now given = int64 t := by
  obtain ⟨low, high⟩ := clock
  cases given with
  | ttlSeconds n =>
    rw [Given.own] at own
    split_ifs at own with positive
    obtain rfl := Option.some.inj own
    have explicit : (Given.ttlSeconds n).explicit now = now + seconds n :=
      if_neg (not_le.mpr positive)
    have bounds := (representable_int64 (n * second)).1
    have apart : now + seconds n ≠ zeroTime := by
      rw [seconds, zeroTime, second] at *
      omega
    rw [stamped, explicit, if_neg apart, resolveInsertExpiry, seconds, int64, int64,
      Int.add_bmod_bmod, int64]
  | expiresAt u =>
    rw [Given.own] at own
    split_ifs at own with apart
    obtain rfl := Option.some.inj own
    rw [stamped, Given.explicit, if_neg apart, resolveInsertExpiry]

theorem stamped_default (own : given.own now = none) :
    stamped cfg defaultTtlSeconds now given =
      int64 (resolveInsertExpiry (createCollection cfg defaultTtlSeconds) now none) := by
  have missing : given.explicit now = zeroTime := by
    cases given with
    | ttlSeconds n =>
      rw [Given.own] at own
      split_ifs at own with positive
      exact if_pos (not_lt.mp positive)
    | expiresAt u =>
      rw [Given.own] at own
      split_ifs at own with same
      exact same
  rw [stamped, missing, if_pos rfl]

variable (cfg) in
/-- A default of a signed 64-bit number of nanoseconds is the one that applies. -/
theorem defaultTTL_createCollection (positive : 0 < n) (fits : n * second < 2 ^ 63) :
    (createCollection cfg n).defaultTTL = n * second := by
  rw [second] at fits
  have exact : seconds n = n * second := by
    refine int64_of_representable ⟨?_, ?_⟩ <;> rw [second] <;> omega
  have whole : n * second / second = n := Int.mul_ediv_cancel n (by decide)
  have duration : ¬n * second ≤ 0 := by
    rw [second]
    omega
  rw [createCollection, if_pos positive, setDefaultTTL, exact, if_neg duration, whole, exact]
  exact Int.toNat_of_nonneg (le_of_not_ge duration)

/-- A longer one that ends before the last instant is taken for a negative
duration, and the default of the server stays. -/
theorem createCollection_long (long : 2 ^ 63 ≤ n * second) (ends : n * second < 2 ^ 64) :
    createCollection cfg n = cfg := by
  have negative : seconds n ≤ 0 := by
    rw [seconds, int64, Int.bmod_def]
    omega
  rw [createCollection]
  split_ifs
  · rw [setDefaultTTL, if_pos negative]
  · rfl

/-- A default that does not fit its 64 bits is not kept. -/
theorem not_keeps_long (short : cfg.defaultTTL < 2 ^ 63) (clock : Representable now)
    (long : 2 ^ 63 ≤ n * second) :
    ¬Keeps (int64 (resolveInsertExpiry (createCollection cfg n) now none)) (now + n * second) := by
  obtain ⟨start, stop⟩ := clock
  rw [keeps_iff (by omega) (representable_int64 _)]
  rintro ⟨same, expires⟩
  have held := (representable_int64 (resolveInsertExpiry (createCollection cfg n) now none)).2
  rw [same] at held
  rw [createCollection_long long (by omega), resolveInsertExpiry] at same expires
  split_ifs at same expires
  · rw [int64, Int.bmod_def] at same
    omega
  · exact expires rfl

/-- A record is visible exactly while the clock is before its deadline, and expires
at it, if and only if the deadline is not the epoch and can be held in 64 bits, as
well as the duration of a default that gave it.  A deadline too early to be held is
kept only if it wraps around to the first instant.  Without a deadline a record stays
visible. -/
theorem visible_until_deadline_iff (cfg : Config) (short : cfg.defaultTTL < 2 ^ 63)
    (defaultTtlSeconds now : Int) (clock : Representable now) (given : Given) :
    (deadline cfg defaultTtlSeconds now given = none →
      ∀ clock, isVisible (stamped cfg defaultTtlSeconds now given) clock = true) ∧
    ∀ t, deadline cfg defaultTtlSeconds now given = some t →
      (Keeps (stamped cfg defaultTtlSeconds now given) t ↔
        (Representable t ∧ t ≠ 0 ∧
          (given.own now = none → defaultTtlSeconds * second < 2 ^ 63)) ∨
        (t < -2 ^ 63 ∧ t % 2 ^ 64 = 2 ^ 63)) := by
  rcases own : given.own now with - | u
  · rw [deadline, own, Option.none_or, stamped_default own, defaultDeadline]
    split_ifs with positive inherited
    · refine ⟨nofun, fun t is => ?_⟩
      obtain rfl := Option.some.inj is
      by_cases fits : defaultTtlSeconds * second < 2 ^ 63
      · have applies := defaultTTL_createCollection cfg positive fits
        rw [resolveInsertExpiry, if_pos, applies]
        · exact keeps_int64_iff fun _ => fits
        · rw [second] at applies
          omega
      · refine iff_of_false (not_keeps_long short clock (not_lt.mp fits)) ?_
        rintro (⟨-, -, kept⟩ | ⟨early, -⟩)
        · exact fits (kept rfl)
        · obtain ⟨start, -⟩ := clock
          omega
    · refine ⟨nofun, fun t is => ?_⟩
      obtain rfl := Option.some.inj is
      rw [createCollection, if_neg positive, resolveInsertExpiry, if_pos inherited]
      refine keeps_int64_iff fun _ => ?_
      rw [second]
      omega
    · refine ⟨fun _ clock => ?_, nofun⟩
      rw [createCollection, if_neg positive, resolveInsertExpiry, if_neg inherited]
      rfl
  · rw [deadline, own, Option.some_or, stamped_own clock own]
    refine ⟨nofun, fun t is => ?_⟩
    obtain rfl := Option.some.inj is
    exact keeps_int64_iff nofun

theorem visible_for_a_minute :
    Keeps (stamped smallConfig 0 (1700000000 * second) (.ttlSeconds 60)) (1700000060 * second) :=
  ((visible_until_deadline_iff smallConfig (by decide) 0 (1700000000 * second)
    ⟨by decide, by decide⟩ (.ttlSeconds 60)).2 _ rfl).mpr
      (Or.inl ⟨⟨by decide, by decide⟩, by decide, nofun⟩)

/-- A record that should live for 292 years is born expired, and one of a
collection with that default never expires. -/
theorem centuries_overflow :
    isVisible (stamped smallConfig 0 (1700000000 * second) (.ttlSeconds 9223372037))
        (1700000000 * second) = false ∧
      stamped smallConfig 9223372037 (1700000000 * second) (.ttlSeconds 0) = 0 := by
  decide

end Scriva.Engine.Deadlines
