import EchoLife.Base.Buffer

/-!
Memory that holds a sequence of entries, each a code, the number of its data
bytes and the data, up to a marker. An entry is appended by writing it over the
marker and setting the marker behind it.
-/

namespace EchoLife.Tlv

open Buffer Function

structure Entry where
  code : UInt8
  data : List UInt8
  length_lt : data.length < 256

def Entry.size (e : Entry) : Nat :=
  e.data.length + 2

def Entry.byte (e : Entry) : Nat → UInt8
  | 0 => e.code
  | 1 => UInt8.ofNat e.data.length
  | d + 2 => e.data.getD d 0

def size (entries : List Entry) : Nat :=
  (entries.map Entry.size).sum

@[simp] theorem size_nil : size [] = 0 :=
  rfl

@[simp] theorem size_cons (e : Entry) (rest : List Entry) :
    size (e :: rest) = e.size + size rest := by
  simp [size]

theorem size_append (first second : List Entry) :
    size (first ++ second) = size first + size second := by
  simp [size]

theorem Entry.length_byte (e : Entry) : (e.byte 1).toNat = e.data.length := by
  have hlength := e.length_lt
  simp only [Entry.byte, UInt8.toNat_ofNat']
  omega

/-- The memory from `i` on holds the entries and the marker behind them. -/
def Stored (marker : UInt8) (memory : Nat → UInt8) : Nat → List Entry → Prop
  | i, [] => memory i = marker
  | i, e :: rest =>
    (∀ d, d < e.size → memory (i + d) = e.byte d) ∧ Stored marker memory (i + e.size) rest

variable {position : Nat} {e : Entry} {marker : UInt8} {memory : Nat → UInt8} {i : Nat}
  {entries : List Entry}

section

variable {rest : List Entry} (h : Stored marker memory i (e :: rest))
include h

theorem Stored.code : memory i = e.code := by
  have hcode := h.1 0 (by simp [Entry.size])
  simpa [Entry.byte] using hcode

theorem Stored.length : (memory (i + 1)).toNat = e.data.length := by
  rw [h.1 1 (by simp [Entry.size]), e.length_byte]

theorem Stored.data {d : Nat} (hd : d < e.data.length) : memory (i + 2 + d) = e.data[d] := by
  have hbyte := h.1 (d + 2) (by simp only [Entry.size]; omega)
  have hposition : i + 2 + d = i + (d + 2) := by omega
  rw [hposition, hbyte]
  simp [Entry.byte, hd]

end

def append (marker : UInt8) (memory : Nat → UInt8) (position : Nat) (e : Entry) : Nat → UInt8 :=
  update (blit memory position e.size e.byte) (position + e.size) marker

theorem append_outside {j : Nat} (hj : j < position ∨ position + e.size < j) :
    append marker memory position e j = memory j := by
  unfold append
  rw [update_of_ne (by omega), blit_outside _ _ (by omega)]

theorem Stored.append (h : Stored marker memory i entries) (e : Entry) :
    Stored marker (append marker memory (i + size entries) e) i (entries ++ [e]) := by
  -- The entries before the marker are left as they are, whatever comes first.
  suffices hgeneral : ∀ (position j : Nat) (rest : List Entry),
      Stored marker memory j rest → j + size rest = position →
      Stored marker (Tlv.append marker memory position e) j (rest ++ [e]) from
    hgeneral _ i entries h rfl
  intro position j rest hrest hend
  induction rest generalizing j with
  | nil =>
    obtain rfl : j = position := by simpa using hend
    refine ⟨?_, ?_⟩
    · intro d hd
      unfold Tlv.append
      rw [update_of_ne (by omega), blit_at _ _ hd]
    · exact update_self _ _ _
  | cons first rest ih =>
    rw [size_cons] at hend
    refine ⟨?_, ih _ hrest.2 (by omega)⟩
    intro d hd
    rw [append_outside (by omega)]
    exact hrest.1 d hd

def firstWith (code : Int) : Nat → List Entry → Option (Nat × Entry)
  | _, [] => none
  | i, e :: rest =>
    if (e.code.toNat : Int) = code then some (i, e)
    else firstWith code (i + e.size) rest

theorem le_of_firstWith {code : Int} (hfirst : firstWith code i entries = some (position, e)) :
    i ≤ position := by
  induction entries generalizing i with
  | nil => cases hfirst
  | cons first rest ih =>
    simp only [firstWith] at hfirst
    split at hfirst
    · cases hfirst
      exact le_refl _
    · exact le_trans (Nat.le_add_right _ first.size) (ih hfirst)

theorem Stored.firstWith (h : Stored marker memory i entries) {code : Int}
    (hfirst : firstWith code i entries = some (position, e)) :
    ∃ rest, Stored marker memory position (e :: rest) := by
  induction entries generalizing i with
  | nil => cases hfirst
  | cons first rest ih =>
    simp only [Tlv.firstWith] at hfirst
    split at hfirst
    · cases hfirst
      exact ⟨rest, h⟩
    · exact ih h.2 hfirst

end EchoLife.Tlv
