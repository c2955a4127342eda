/-! # Blank characters and trimming

  Texts that people type (paths, expressions, type names, numbers, tokens)
  are read after the blanks around them are dropped.

  - `isBlank` is the Unicode property `White_Space`.
  - `trim` drops the longest blank run at each end and nothing else. What has no
    blank at either end stays as it is (`trimChars_eq_self`), so trimming twice
    is trimming once (`trim_trim`).
  - What is dropped is `Blanks` (`exists_trimChars`), and from around a text
    without blanks all of them are (`trimChars_append`).
-/

namespace RecordGate.Text

/-- The code points of the Unicode property `White_Space`. -/
def isBlank (c : Char) : Bool :=
  let n := c.toNat
  (0x09 ≤ n && n ≤ 0x0D) || n = 0x20 || n = 0x85 || n = 0xA0 || n = 0x1680 ||
  (0x2000 ≤ n && n ≤ 0x200A) || n = 0x2028 || n = 0x2029 || n = 0x202F ||
  n = 0x205F || n = 0x3000

/-- Drops the blanks in front. -/
def trimStart (cs : List Char) : List Char :=
  cs.dropWhile isBlank

/-- Drops the blanks at the end. -/
def trimEnd (cs : List Char) : List Char :=
  (cs.reverse.dropWhile isBlank).reverse

/-- Drops the blanks at both ends. -/
def trimChars (cs : List Char) : List Char :=
  trimEnd (trimStart cs)

/-- `trimChars` on strings. -/
def trim (s : String) : String :=
  String.ofList (trimChars s.toList)

@[simp] theorem trimStart_nil : trimStart [] = [] := rfl

@[simp] theorem trimEnd_nil : trimEnd [] = [] := rfl

@[simp] theorem trimChars_nil : trimChars [] = [] := rfl

theorem trimStart_eq_self {cs : List Char} (h : ∀ c, cs.head? = some c → isBlank c = false) :
    trimStart cs = cs := by
  cases cs with
  | nil => rfl
  | cons c rest => simp [trimStart, h c rfl]

theorem trimEnd_eq_self {cs : List Char} (h : ∀ c, cs.getLast? = some c → isBlank c = false) :
    trimEnd cs = cs := by
  have hreverse : trimStart cs.reverse = cs.reverse := by
    apply trimStart_eq_self
    intro c hc
    exact h c (List.head?_reverse ▸ hc)
  show (trimStart cs.reverse).reverse = cs
  rw [hreverse, List.reverse_reverse]

/-- A text without a blank at either end is not changed. -/
theorem trimChars_eq_self {cs : List Char} (hfirst : ∀ c, cs.head? = some c → isBlank c = false)
    (hlast : ∀ c, cs.getLast? = some c → isBlank c = false) : trimChars cs = cs := by
  unfold trimChars
  rw [trimStart_eq_self hfirst, trimEnd_eq_self hlast]

/-- No blank is left in front. -/
theorem head?_trimStart {cs : List Char} {c : Char} (h : (trimStart cs).head? = some c) :
    isBlank c = false := by
  have hfirst := List.head?_dropWhile_not isBlank cs
  unfold trimStart at h
  rw [h] at hfirst
  exact hfirst

/-- What is dropped at the end leaves the start. -/
theorem trimEnd_prefix (cs : List Char) : trimEnd cs <+: cs := by
  have hsuffix : cs.reverse.dropWhile isBlank <:+ cs.reverse := List.dropWhile_suffix isBlank
  exact List.reverse_suffix.mp (by simpa [trimEnd] using hsuffix)

/-- No blank is left at the end. -/
theorem getLast?_trimEnd {cs : List Char} {c : Char} (h : (trimEnd cs).getLast? = some c) :
    isBlank c = false := by
  unfold trimEnd at h
  rw [List.getLast?_reverse] at h
  exact head?_trimStart h

theorem trimChars_trimChars (cs : List Char) : trimChars (trimChars cs) = trimChars cs := by
  apply trimChars_eq_self
  · -- what is left opens with the first character of what the front left
    intro c hc
    obtain ⟨rest, hrest⟩ := trimEnd_prefix (trimStart cs)
    have hfirst : (trimStart cs).head? = some c := by
      rw [← hrest, List.head?_append]
      show (trimChars cs).head?.or rest.head? = some c
      rw [hc, Option.some_or]
    exact head?_trimStart hfirst
  · intro c hc
    exact getLast?_trimEnd hc

/-- Trimming twice is trimming once. -/
theorem trim_trim (s : String) : trim (trim s) = trim s := by
  unfold trim
  rw [String.toList_ofList, trimChars_trimChars]

/-! ### Runs of blanks -/

/-- A run of blanks, perhaps an empty one. -/
def Blanks (cs : List Char) : Prop :=
  ∀ c ∈ cs, isBlank c = true

theorem trimStart_append {before cs : List Char} (h : Blanks before) :
    trimStart (before ++ cs) = trimStart cs :=
  List.dropWhile_append_of_pos h

theorem trimEnd_append {cs after : List Char} (h : Blanks after) :
    trimEnd (cs ++ after) = trimEnd cs := by
  unfold trimEnd
  rw [List.reverse_append, List.dropWhile_append_of_pos]
  exact fun c hc => h c (List.mem_reverse.mp hc)

/-- Trimming takes the blanks from around a text without blanks. -/
theorem trimChars_append {before cs after : List Char} (hbefore : Blanks before)
    (hafter : Blanks after) (hcs : ∀ c ∈ cs, isBlank c = false) :
    trimChars (before ++ cs ++ after) = cs := by
  cases cs with
  | nil =>
    have hall : trimStart (after ++ []) = [] := trimStart_append hafter
    unfold trimChars
    rw [List.append_assoc, trimStart_append hbefore, List.nil_append, ← List.append_nil after, hall]
    rfl
  | cons c rest =>
    have hfirst : isBlank c = false := hcs c List.mem_cons_self
    calc trimChars (before ++ (c :: rest) ++ after)
        = trimEnd (trimStart (c :: rest ++ after)) := by
          unfold trimChars
          rw [List.append_assoc, trimStart_append hbefore]
      _ = trimEnd (c :: rest) := by
          rw [trimStart_eq_self, trimEnd_append hafter]
          rintro d ⟨⟩
          exact hfirst
      _ = trimChars (c :: rest) := by
          unfold trimChars
          rw [trimStart_eq_self]
          rintro d ⟨⟩
          exact hfirst
      _ = c :: rest := by
          apply trimChars_eq_self
          · rintro d ⟨⟩
            exact hfirst
          · exact fun d hd => hcs d (List.mem_of_getLast? hd)

/-- What is dropped at the end is blanks. -/
theorem exists_trimEnd (cs : List Char) : ∃ after, Blanks after ∧ cs = trimEnd cs ++ after := by
  refine ⟨(cs.reverse.takeWhile isBlank).reverse, ?_, ?_⟩
  · exact fun c hc => List.all_eq_true.mp List.all_takeWhile c (List.mem_reverse.mp hc)
  · unfold trimEnd
    rw [← List.reverse_append, List.takeWhile_append_dropWhile, List.reverse_reverse]

/-- Nothing is dropped before a character that is no blank. -/
theorem trimEnd_append_right {front : List Char}
    (h : ∀ c, front.getLast? = some c → isBlank c = false) (cs : List Char) :
    trimEnd (front ++ cs) = front ++ trimEnd cs := by
  obtain ⟨after, hafter, hcs⟩ := exists_trimEnd cs
  have hlast : ∀ c, (front ++ trimEnd cs).getLast? = some c → isBlank c = false := by
    intro c hc
    rw [List.getLast?_append] at hc
    rcases hend : (trimEnd cs).getLast? with _ | d
    · rw [hend, Option.none_or] at hc
      exact h c hc
    · rw [hend, Option.some_or] at hc
      cases hc
      exact getLast?_trimEnd hend
  calc trimEnd (front ++ cs) = trimEnd (front ++ trimEnd cs ++ after) := by
        rw [List.append_assoc, ← hcs]
    _ = front ++ trimEnd cs := by
        rw [trimEnd_append hafter, trimEnd_eq_self hlast]

/-- What trimming takes away is blanks. -/
theorem exists_trimChars (cs : List Char) :
    ∃ before after, Blanks before ∧ Blanks after ∧ cs = before ++ trimChars cs ++ after := by
  have hstart : cs.takeWhile isBlank ++ trimStart cs = cs := List.takeWhile_append_dropWhile
  obtain ⟨after, hafter, hend⟩ := exists_trimEnd (trimStart cs)
  refine ⟨cs.takeWhile isBlank, after, ?_, hafter, ?_⟩
  · exact List.all_eq_true.mp List.all_takeWhile
  · calc cs = cs.takeWhile isBlank ++ trimStart cs := hstart.symm
      _ = cs.takeWhile isBlank ++ (trimEnd (trimStart cs) ++ after) := by rw [← hend]
      _ = cs.takeWhile isBlank ++ trimChars cs ++ after := (List.append_assoc _ _ _).symm

end RecordGate.Text
