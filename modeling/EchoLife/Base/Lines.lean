import Mathlib.Tactic

/-!
Text files that are read by lines, and lines that are read by words, as `fgets` and
the conversion `%s` of `sscanf` do. A line that fits into the buffer is read whole.
-/

namespace EchoLife.Lines

open List

/-- `fgets` into a buffer with that room: the line, with its end if that was reached, and the
rest. -/
def fgets : Nat → List UInt8 → List UInt8 × List UInt8
  | 0, file => ([], file)
  | _ + 1, [] => ([], [])
  | room + 1, c :: rest =>
    if c = 10 then ([c], rest)
    else (c :: (fgets room rest).1, (fgets room rest).2)

def readLines (room : Nat) : Nat → List UInt8 → List (List UInt8)
  | 0, _ => []
  | _ + 1, [] => []
  | fuel + 1, c :: rest =>
    (fgets room (c :: rest)).1 :: readLines room fuel (fgets room (c :: rest)).2

def lines (room : Nat) (file : List UInt8) : List (List UInt8) :=
  readLines room file.length file

def blank (c : UInt8) : Bool :=
  c == 32 || (9 ≤ c && c ≤ 13)

/-- The words that conversions `%s` read one after the other. -/
def words (text : List UInt8) : List (List UInt8) :=
  (text.splitOnP blank).filter (fun word => !word.isEmpty)

variable {room : Nat} {text : List UInt8}

theorem fgets_line (htext : 10 ∉ text) (hroom : text.length < room) (rest : List UInt8) :
    fgets room (text ++ 10 :: rest) = (text ++ [10], rest) := by
  induction text generalizing room with
  | nil =>
    cases room with
    | zero => exact absurd hroom (Nat.not_lt_zero _)
    | succ room => rfl
  | cons c text ih =>
    cases room with
    | zero => exact absurd hroom (Nat.not_lt_zero _)
    | succ room =>
      obtain ⟨hc, htext⟩ := ne_and_not_mem_of_not_mem_cons htext
      rw [cons_append, fgets, if_neg hc.symm, ih htext (Nat.lt_of_succ_lt_succ hroom)]
      rfl

theorem readLines_line {fuel : Nat} (htext : 10 ∉ text)
    (hroom : text.length < room) (rest : List UInt8) :
    readLines room (fuel + 1) (text ++ 10 :: rest) =
      (text ++ [10]) :: readLines room fuel rest := by
  have hline := fgets_line htext hroom rest
  cases text with
  | nil =>
    rw [nil_append] at hline ⊢
    rw [readLines, hline]
  | cons c text =>
    rw [cons_append] at hline ⊢
    rw [readLines, hline]

/-- A file that was written line by line is read line by line. -/
theorem lines_flatMap {texts : List (List UInt8)}
    (h : ∀ text ∈ texts, 10 ∉ text ∧ text.length < room) :
    lines room (texts.flatMap (fun text => text ++ [10])) =
      texts.map (fun text => text ++ [10]) := by
  suffices hfuel : ∀ fuel, texts.length ≤ fuel →
      readLines room fuel (texts.flatMap (fun text => text ++ [10])) =
        texts.map (fun text => text ++ [10]) from by
    have hlength := length_le_sum_of_one_le
      (texts.map (fun text => (text ++ [10]).length)) (by simp)
    rw [length_map, ← length_flatMap] at hlength
    exact hfuel _ hlength
  induction texts with
  | nil =>
    intro fuel _
    cases fuel with
    | zero => rfl
    | succ fuel => rfl
  | cons text rest ih =>
    intro fuel hfuel
    rw [forall_mem_cons] at h
    cases fuel with
    | zero => exact absurd hfuel (Nat.not_succ_le_zero _)
    | succ fuel =>
      rw [flatMap_cons, append_assoc, singleton_append,
        readLines_line h.1.1 h.1.2, ih h.2 fuel (Nat.le_of_succ_le_succ hfuel), map_cons]

theorem words_cons {word : List UInt8} (hword : ∀ c ∈ word, blank c = false)
    (hne : word ≠ []) {c : UInt8} (hblank : blank c = true) (rest : List UInt8) :
    words (word ++ c :: rest) = word :: words rest := by
  rw [words, splitOnP_append_cons_of_forall_mem hword c hblank,
    filter_cons_of_pos (by simpa using hne)]
  rfl

end EchoLife.Lines
