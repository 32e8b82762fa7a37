import QuantumChain.KeyedMap

/-! Keys that are remembered for a while.
The clock is the caller's and need not rise. -/
namespace QuantumChain.ExpiryCache
open KeyedMap
variable {K : Type} [DecidableEq K]

def live (now : Nat) (cache : KeyedMap K Nat) (key : K) : Bool := (cache.lookup key).any fun expiry => decide (now < expiry)

def trim (limit now : Nat) (cache : KeyedMap K Nat) : KeyedMap K Nat :=
  if limit ≤ KeyedMap.size cache then retain (fun _ expiry => decide (now < expiry)) cache else cache

def checkAndInsert (limit ttl now : Nat) (key : K) (cache : KeyedMap K Nat) : Bool × KeyedMap K Nat :=
  let trimmed := trim limit now cache
  if live now trimmed key then (false,trimmed) else (true,trimmed.insert key (now + ttl))

section
variable {limit ttl now clock till : Nat} {key other : K} {cache : KeyedMap K Nat}

theorem liveIff : live now cache key = true ↔ ∃ expiry, cache.lookup key = some expiry ∧ now < expiry := by
  unfold live
  cases cache.lookup key with
  | none => simp
  | some expiry => simp

theorem trimKeeps {expiry} (held : cache.lookup key = some expiry) (ahead : now < expiry) :
    (trim limit now cache).lookup key = some expiry := by
  unfold trim
  split
  · exact lookupRetainSome.mpr ⟨held,decide_eq_true ahead⟩
  · exact held

theorem trimHeld {expiry} (held : (trim limit now cache).lookup key = some expiry) : cache.lookup key = some expiry := by
  unfold trim at held
  split at held
  · exact (lookupRetainSome.mp held).1
  · exact held

theorem liveTrim : live now (trim limit now cache) key = live now cache key := by
  rw [Bool.eq_iff_iff,liveIff,liveIff]
  constructor
  · rintro ⟨expiry,held,ahead⟩
    exact ⟨expiry,trimHeld held,ahead⟩
  · rintro ⟨expiry,held,ahead⟩
    exact ⟨expiry,trimKeeps held ahead,ahead⟩

theorem checkCases : checkAndInsert limit ttl now key cache =
    if live now cache key then (false,trim limit now cache) else (true,(trim limit now cache).insert key (now + ttl)) := by
  rw [← liveTrim]
  rfl

theorem checkedIff : (checkAndInsert limit ttl now key cache).1 = true ↔ live now cache key = false := by
  rw [checkCases]
  cases live now cache key <;> simp

def Remembered (cache : KeyedMap K Nat) (clock : Nat) (key : K) (till : Nat) : Prop :=
  till ≤ clock ∨ ∃ expiry, cache.lookup key = some expiry ∧ till ≤ expiry

theorem Remembered.later {clock'} (remembered : Remembered cache clock key till) (later : clock ≤ clock') :
    Remembered cache clock' key till :=
  remembered.imp_left fun past => past.trans later

theorem trimRemembers (remembered : Remembered cache clock key till) (stamped : now ≤ clock) :
    Remembered (trim limit now cache) clock key till := by
  rcases remembered with past | ⟨expiry,held,enough⟩
  · exact .inl past
  · rcases Nat.lt_or_ge now expiry with ahead | expired
    · exact .inr ⟨expiry,trimKeeps held ahead,enough⟩
    · exact .inl (enough.trans (expired.trans stamped))

theorem insertRemembers (remembered : Remembered cache clock key till) (fresh : live now cache other = false)
    (stamped : now ≤ clock)
    (expiry : Nat) : Remembered (cache.insert other expiry) clock key till := by
  rcases remembered with past | ⟨expiry',held,enough⟩
  · exact .inl past
  · by_cases same : key = other
    · -- a key that is taken again had expired
      subst same
      have expired : expiry' ≤ now := by
        by_contra ahead
        have alive := liveIff.mpr ⟨expiry',held,Nat.lt_of_not_le ahead⟩
        rw [fresh] at alive
        cases alive
      exact .inl (enough.trans (expired.trans stamped))
    · refine .inr ⟨expiry',?_,enough⟩
      rw [lookupInsert,if_neg same]
      exact held

theorem checkRemembers (remembered : Remembered cache clock key till) (stamped : now ≤ clock) :
    Remembered (checkAndInsert limit ttl now other cache).2 clock key till := by
  have trimmed : Remembered (trim limit now cache) clock key till := trimRemembers remembered stamped
  rw [checkCases]
  cases fresh : live now cache other with
  | true => exact trimmed
  | false => exact insertRemembers trimmed (liveTrim.trans fresh) stamped _

theorem takenRemembered (taken : (checkAndInsert limit ttl now key cache).1 = true) :
    Remembered (checkAndInsert limit ttl now key cache).2 clock key (now + ttl) := by
  have fresh := checkedIff.mp taken
  rw [checkCases,fresh]
  refine .inr ⟨now + ttl,?_,Nat.le_refl _⟩
  change ((trim limit now cache).insert key (now + ttl)).lookup key = _
  rw [lookupInsert,if_pos rfl]

theorem takenPast (remembered : Remembered cache clock key till) (stamped : now ≤ clock)
    (taken : (checkAndInsert limit ttl now key cache).1 = true) : till ≤ clock := by
  rcases remembered with past | ⟨expiry,held,enough⟩
  · exact past
  · by_contra ahead
    have alive := liveIff.mpr ⟨expiry,held,Nat.lt_of_le_of_lt stamped (Nat.lt_of_lt_of_le (Nat.lt_of_not_le ahead) enough)⟩
    rw [checkedIff.mp taken] at alive
    cases alive

end
end QuantumChain.ExpiryCache
