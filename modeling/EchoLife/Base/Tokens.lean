import Mathlib.Data.List.Basic
import Mathlib.Tactic

/-!
Tokens of a text with separators: a pattern without a separator is one of them exactly if
it stands somewhere between separators or the ends of the text.
-/

namespace EchoLife.Tokens

open List

variable {α : Type*}

/-- The pattern stands at `i`, between separators or the ends of the text. -/
def Delimited (sep : α) (text pattern : List α) (i : Nat) : Prop :=
  pattern <+: text.drop i ∧ (i = 0 ∨ text[i - 1]? = some sep) ∧
    (text[i + pattern.length]? = none ∨ text[i + pattern.length]? = some sep)

variable {sep : α} {pattern : List α}

/-- A text that starts with a token and a separator. -/
theorem Delimited.cons {first rest : List α} {i : Nat} (h : Delimited sep rest pattern i) :
    Delimited sep (first ++ sep :: rest) pattern (first.length + 1 + i) := by
  obtain ⟨hat, hbefore, hafter⟩ := h
  have hshift (j : Nat) : (first ++ sep :: rest)[first.length + 1 + j]? = rest[j]? := by
    rw [getElem?_append_right (by omega), show first.length + 1 + j - first.length = j + 1 by omega,
      getElem?_cons_succ]
  refine ⟨?_, .inr ?_, ?_⟩
  · rwa [add_assoc, ← drop_drop, drop_left, add_comm 1, drop_succ_cons]
  · cases i with
    | zero => simp
    | succ i =>
      rw [show first.length + 1 + (i + 1) - 1 = first.length + 1 + i by omega, hshift]
      simpa using hbefore
  · rwa [add_assoc, hshift]

/-- The place in the text at which the token behind these starts. -/
def startAfter (before : List (List α)) : Nat :=
  (before.map (fun token => token.length + 1)).sum

theorem intercalate_append {tokens : List (List α)} (hne : tokens ≠ []) (token : List α)
    (others : List (List α)) : [sep].intercalate (tokens ++ token :: others) =
      [sep].intercalate tokens ++ sep :: [sep].intercalate (token :: others) := by
  induction tokens with
  | nil => exact absurd rfl hne
  | cons first rest ih =>
    cases rest with
    | nil => simp [intercalate_cons_of_ne_nil]
    | cons second rest =>
      rw [cons_append, intercalate_cons_of_ne_nil (by simp), ih (by simp),
        intercalate_cons_of_ne_nil (l := first) (by simp)]
      simp

variable [DecidableEq α]

theorem startAfter_splitOn (text : List α) : startAfter (text.splitOn sep) = text.length + 1 := by
  induction text with
  | nil => rfl
  | cons c rest ih =>
    have hne := splitOn_ne_nil sep rest
    rw [splitOn_cons_eq_if_modifyHead]
    cases hsplit : rest.splitOn sep with
    | nil => exact absurd hsplit hne
    | cons first others =>
      rw [hsplit] at ih
      simp only [startAfter, map_cons, sum_cons, length_cons] at ih ⊢
      split
      · rw [map_cons, sum_cons, map_cons, sum_cons, length_nil]
        omega
      · rw [modifyHead_cons, map_cons, sum_cons, length_cons]
        omega

/-- The tokens of a text that starts with a pattern, up to its end or a separator. -/
theorem splitOn_of_prefix {text : List α} (hat : pattern <+: text)
    (h : text[pattern.length]? = none ∨ text[pattern.length]? = some sep) :
    ∃ after, text.splitOn sep = pattern.splitOn sep ++ after := by
  obtain ⟨rest, rfl⟩ := hat
  rw [getElem?_append_right le_rfl, Nat.sub_self] at h
  cases rest with
  | nil => exact ⟨[], by simp⟩
  | cons c rest =>
    obtain rfl : c = sep := by simpa using h
    exact ⟨rest.splitOn c, splitOn_append_cons_self pattern rest⟩

theorem Delimited.tokens {text : List α} {i : Nat} (h : Delimited sep text pattern i) :
    ∃ before after, text.splitOn sep = before ++ (pattern.splitOn sep ++ after) ∧
      startAfter before = i := by
  obtain ⟨hat, hbefore, hafter⟩ := h
  rw [← getElem?_drop] at hafter
  obtain ⟨after, hsplit⟩ := splitOn_of_prefix hat hafter
  cases i with
  | zero => exact ⟨[], after, hsplit, rfl⟩
  | succ i =>
    have hsep : text[i]? = some sep := by simpa using hbefore
    obtain ⟨hlt, hget⟩ := List.getElem?_eq_some_iff.mp hsep
    refine ⟨(text.take i).splitOn sep, after, ?_, ?_⟩
    · rw [← hsplit, ← splitOn_append_cons_self, ← hget, ← drop_eq_getElem_cons, take_append_drop]
    · rw [startAfter_splitOn, length_take, min_eq_left hlt.le]

/-- A pattern stands between separators exactly where its tokens are tokens of the text, one after
the other. -/
theorem delimited_iff (text : List α) (i : Nat) : Delimited sep text pattern i ↔
    ∃ before after, text.splitOn sep = before ++ (pattern.splitOn sep ++ after) ∧
      startAfter before = i := by
  refine ⟨Delimited.tokens, ?_⟩
  rintro ⟨before, after, hsplit, rfl⟩
  induction before generalizing text with
  | nil =>
    have htext : text = [sep].intercalate (pattern.splitOn sep ++ after) := by
      rw [← nil_append (pattern.splitOn sep ++ after), ← hsplit, intercalate_splitOn]
    cases after with
    | nil =>
      obtain rfl : text = pattern := by rw [htext, append_nil, intercalate_splitOn]
      exact ⟨by simp [startAfter], .inl rfl, .inl (by simp [startAfter])⟩
    | cons token tokens =>
      rw [intercalate_append (splitOn_ne_nil sep pattern), intercalate_splitOn] at htext
      exact ⟨by simp [startAfter, htext], .inl rfl, .inr (by simp [startAfter, htext])⟩
  | cons first before ih =>
    by_cases hsep : sep ∈ text
    · obtain ⟨token, rest, rfl, htoken⟩ := eq_append_cons_of_mem hsep
      rw [splitOn_append_cons_self_of_not_mem htoken, cons_append, cons.injEq] at hsplit
      rw [← hsplit.1]
      exact (ih rest hsplit.2).cons
    · rw [splitOn_eq_singleton hsep, cons_append, cons.injEq] at hsplit
      simp at hsplit

theorem not_mem_of_mem_splitOn (text : List α) (h : pattern ∈ text.splitOn sep) :
    sep ∉ pattern := by
  by_cases hsep : sep ∈ text
  · obtain ⟨first, rest, rfl, hfirst⟩ := eq_append_cons_of_mem hsep
    rw [splitOn_append_cons_self_of_not_mem hfirst, mem_cons] at h
    rcases h with rfl | hrest
    · exact hfirst
    · exact not_mem_of_mem_splitOn rest hrest
  · rw [splitOn_eq_singleton hsep, mem_singleton] at h
    rwa [h]
termination_by text.length

/-- A pattern without a separator is a token exactly if it stands somewhere between
separators. -/
theorem mem_splitOn_iff (hsep : sep ∉ pattern) (text : List α) :
    pattern ∈ text.splitOn sep ↔ ∃ i, Delimited sep text pattern i := by
  simp only [delimited_iff, splitOn_eq_singleton hsep, singleton_append, mem_iff_append]
  exact ⟨fun ⟨before, after, h⟩ => ⟨_, before, after, h, rfl⟩,
    fun ⟨_, before, after, h, _⟩ => ⟨before, after, h⟩⟩

end EchoLife.Tokens
