import Mathlib.Algebra.Ring.Int.Defs
import Mathlib.Algebra.Ring.Nat
import Mathlib.Data.List.Nodup
import RecordGate.Proofs.IdentifierText

/-! # Fresh identifiers

  A source makes identifiers of the clock, five bytes of the process and a
  counter. Of the seconds it takes 32 bits and of the counter 24; the counter
  itself has 32 and wraps around.

  **Key idea.** The last bytes of two numbers are the same exactly if the numbers
  agree modulo a power of 256 (`tailBytes_inj`). What the counter loses when it
  wraps around is a multiple of `2^24`. So the number of the call modulo `2^24`
  and the seconds modulo `2^32` are all that an identifier knows.

  - `after_eq`, `next_after`: the calls one after the other.
  - `nth_eq_iff`: which calls make the same identifier.
  - `fresh_exact`: the same for runs of calls, with the texts of what they make.
-/

namespace RecordGate.ObjectId

/-! ### Last bytes -/

theorem tailBytes_succ (count n : Nat) :
    tailBytes (count + 1) n = UInt8.ofNat (n / 256 ^ count) :: tailBytes count n := by
  simp [tailBytes, List.range_succ]

theorem byte_inj (n m : Nat) : UInt8.ofNat n = UInt8.ofNat m ↔ n % 256 = m % 256 := by
  rw [← UInt8.toNat_inj, UInt8.toNat_ofNat', UInt8.toNat_ofNat']

/-- The last bytes of two numbers are the same exactly if the numbers agree
    modulo a power of 256. -/
theorem tailBytes_inj (count n m : Nat) :
    tailBytes count n = tailBytes count m ↔ n % 256 ^ count = m % 256 ^ count := by
  induction count with
  | zero => simp [tailBytes, Nat.mod_one]
  | succ count ih =>
    rw [tailBytes_succ, tailBytes_succ, List.cons.injEq, byte_inj, ih]
    -- one more byte in front is one more digit of base 256
    rw [Nat.pow_succ, Nat.mod_mul, Nat.mod_mul]
    have hpos : 0 < 256 ^ count := Nat.pow_pos (by decide)
    have hn : n % 256 ^ count < 256 ^ count := Nat.mod_lt n hpos
    have hm : m % 256 ^ count < 256 ^ count := Nat.mod_lt m hpos
    constructor
    · intro h
      rw [h.1, h.2]
    · intro h
      have hlow : n % 256 ^ count = m % 256 ^ count := by
        have hmod := congrArg (· % 256 ^ count) h
        simpa [Nat.add_mul_mod_self_left, Nat.mod_eq_of_lt hn, Nat.mod_eq_of_lt hm] using hmod
      have hhigh : 256 ^ count * (n / 256 ^ count % 256) = 256 ^ count * (m / 256 ^ count % 256) := by
        omega
      exact ⟨Nat.eq_of_mul_eq_mul_left hpos hhigh, hlow⟩

/-! ### Calls -/

/-- The source after so many calls, the clock reading `seconds n` at the `n`-th. -/
def Source.after (source : Source) (seconds : Nat → Int) : Nat → Source
  | 0 => source
  | n + 1 => ((source.after seconds n).next (seconds n)).2

variable {source : Source}

/-- Every call counts up by one and keeps the bytes of the process. -/
theorem after_eq (source : Source) (seconds : Nat → Int) (n : Nat) :
    source.after seconds n = { source with counter := source.counter + UInt32.ofNat n } := by
  induction n with
  | zero =>
    simp [Source.after]
  | succ n ih =>
    have hcount : source.counter + UInt32.ofNat n + 1 = source.counter + UInt32.ofNat (n + 1) := by
      rw [UInt32.ofNat_add, UInt32.add_assoc]
      rfl
    simp only [Source.after, ih, Source.next, hcount]

/-- The `n`-th call makes the `n`-th identifier. -/
theorem next_after (source : Source) (seconds : Nat → Int) (n : Nat) :
    ((source.after seconds n).next (seconds n)).1 = source.nth seconds n := by
  rw [after_eq]
  rfl

/-- Two calls of a process make the same identifier exactly if the seconds agree
    modulo `2^32` and the counters modulo `2^24`. -/
theorem make_eq_iff {seconds seconds' : Int} {counter counter' : UInt32} :
    make seconds { source with counter := counter } =
        make seconds' { source with counter := counter' } ↔
      seconds % 2 ^ 32 = seconds' % 2 ^ 32 ∧
        counter.toNat % 2 ^ 24 = counter'.toNat % 2 ^ 24 := by
  have hbytes : make seconds { source with counter := counter } =
      make seconds' { source with counter := counter' } ↔
      tailBytes 4 (seconds % 0x100000000).toNat = tailBytes 4 (seconds' % 0x100000000).toNat ∧
        tailBytes 3 counter.toNat = tailBytes 3 counter'.toNat := by
    simp only [make, ObjectId.mk.injEq]
    constructor
    · intro h
      -- all three parts have their lengths
      obtain ⟨hfront, hcounter⟩ := List.append_inj' h (by simp [length_tailBytes])
      exact ⟨(List.append_inj' hfront rfl).1, hcounter⟩
    · intro h
      rw [h.1, h.2]
  have hseconds : (seconds % 0x100000000).toNat % 256 ^ 4 =
      (seconds' % 0x100000000).toNat % 256 ^ 4 ↔ seconds % 2 ^ 32 = seconds' % 2 ^ 32 := by
    omega
  have hcounter : (256 : Nat) ^ 3 = 2 ^ 24 := by decide
  rw [hbytes, tailBytes_inj, tailBytes_inj, hseconds, hcounter]

/-- The counter of a call is known modulo `2^24`, although it wraps around. -/
theorem counter_mod (counter : UInt32) (n : Nat) :
    (counter + UInt32.ofNat n).toNat % 2 ^ 24 = (counter.toNat + n) % 2 ^ 24 := by
  rw [UInt32.toNat_add, UInt32.toNat_ofNat']
  omega

/-- Two calls make the same identifier exactly if their seconds agree modulo
    `2^32` and their numbers modulo `2^24`. -/
theorem nth_eq_iff (source : Source) (seconds : Nat → Int) (i j : Nat) :
    source.nth seconds i = source.nth seconds j ↔
      seconds i % 2 ^ 32 = seconds j % 2 ^ 32 ∧ i % 2 ^ 24 = j % 2 ^ 24 := by
  have hnumbers : (source.counter.toNat + i) % 2 ^ 24 = (source.counter.toNat + j) % 2 ^ 24 ↔
      i % 2 ^ 24 = j % 2 ^ 24 := by
    omega
  unfold Source.nth
  rw [make_eq_iff, counter_mod, counter_mod, hnumbers]

/-- Up to `2^24` calls in a row make different identifiers. -/
theorem nodup_calls (source : Source) (seconds : Nat → Int) {count : Nat} (h : count ≤ 2 ^ 24)
    (start : Nat) : ((List.range' start count).map (source.nth seconds)).Nodup := by
  apply List.Nodup.map_on _ List.nodup_range'
  intro i hi j hj hsame
  obtain ⟨a, ha, rfl⟩ := List.mem_range'.mp hi
  obtain ⟨b, hb, rfl⟩ := List.mem_range'.mp hj
  have hnumbers := ((nth_eq_iff source seconds _ _).mp hsame).2
  omega

/-! ### What is made -/

/-- The identifiers that calls make, and their texts.

    - The `n`-th call of a source makes its `n`-th identifier.
    - Two calls make the same one exactly if the seconds agree modulo `2^32` and
      the numbers of the calls modulo `2^24`, whatever the counter was at first
      and however often it wraps around.
    - So up to `2^24` calls in a row make different ones, whatever the clock
      reads.
    - The text of an identifier is valid and reads as this identifier.
    - A text that reads as an identifier is its text but for the case of the
      digits. -/
theorem fresh_exact (source : Source) (seconds : Nat → Int) :
    (∀ n, ((source.after seconds n).next (seconds n)).1 = source.nth seconds n) ∧
    (∀ i j, source.nth seconds i = source.nth seconds j ↔
      seconds i % 2 ^ 32 = seconds j % 2 ^ 32 ∧ i % 2 ^ 24 = j % 2 ^ 24) ∧
    (∀ start count, count ≤ 2 ^ 24 →
      ((List.range' start count).map (source.nth seconds)).Nodup) ∧
    (∀ id : ObjectId, isValid id.toHex = true ∧ parse id.toHex = .ok id) ∧
    (∀ s id, parse s = .ok id → id.toHex = String.ofList (s.toList.map Char.toLower)) := by
  refine ⟨next_after source seconds, nth_eq_iff source seconds, ?_, ?_, ?_⟩
  · intro start count hcount
    exact nodup_calls source seconds hcount start
  · intro id
    exact ⟨isValid_iff.mpr ⟨id, parse_toHex id⟩, parse_toHex id⟩
  · intro s id hread
    rw [lower_of_parse hread, String.ofList_toList]

/-- A source whose counter wraps around in the second call. -/
def nearWrap : Source := ⟨[1, 2, 3, 4, 5], rfl, 0xffffffff⟩

/-- The clock jumps back by `2^32` seconds after the first call and then stands
    still. Still `2^24` calls make different identifiers, across the wrap of the
    counter, and the next one makes the first one again. -/
theorem nearWrap_repeats :
    let clock : Nat → Int := fun n => if n = 0 then 2 ^ 32 - 1 else -1
    nearWrap.nth clock 0 = nearWrap.nth clock (2 ^ 24) ∧
    ((List.range' 0 (2 ^ 24)).map (nearWrap.nth clock)).Nodup ∧
    parse (nearWrap.nth clock 1).toHex = .ok (nearWrap.nth clock 1) ∧
    parse "FFFFFFFF0102030405000000" = .ok (nearWrap.nth clock 1) ∧
    (nearWrap.nth clock 1).toHex = "ffffffff0102030405000000" := by
  intro clock
  obtain ⟨-, hsame, hnodup, htext, hlower⟩ := fresh_exact nearWrap clock
  have hread : parse "FFFFFFFF0102030405000000" = .ok (nearWrap.nth clock 1) := by
    decide +kernel
  refine ⟨(hsame 0 (2 ^ 24)).mpr (by decide), ?_, ?_, hread, ?_⟩
  · exact hnodup 0 (2 ^ 24) (Nat.le_refl _)
  · exact (htext _).2
  · rw [hlower _ _ hread]
    decide +kernel

end RecordGate.ObjectId
