import EchoLife.Base.Text
import Mathlib.Data.List.TakeWhile
import Mathlib.Tactic

/-!
The outbound proxy as an address. `ValidateIpAddress` looks at 15 characters, passes over
empty fields and stops behind the fourth one, and `strtol` passes over blanks and takes a
sign behind them.
-/

namespace EchoLife.Dhcp

open Decimal List Option Text

def isspace (c : UInt8) : Bool :=
  c == 32 || 9 ≤ c && c ≤ 13

def isdigit (c : UInt8) : Bool :=
  (decimalDigit c).isSome

def addDecimal (value : Nat) (c : UInt8) : Nat :=
  value * 10 + (decimalDigit c).getD 0

/-- `strtol(s, &end, 10)` with a `long` of 32 bits, and the text at `end`. -/
def strtol (s : List UInt8) : Int × List UInt8 :=
  let signed := s.dropWhile isspace
  let unsigned := if signed.head? = some 43 ∨ signed.head? = some 45 then signed.tail else signed
  let run := unsigned.takeWhile isdigit
  let value : Int := (run.foldl addDecimal 0 : Nat)
  let value := if signed.head? = some 45 then -value else value
  if run = [] then (0, s) else (max (-2 ^ 31) (min value (2 ^ 31 - 1)), unsigned.dropWhile isdigit)

/-- `strtok_r` with one separator: the token and what is left. -/
def strtokR (sep : UInt8) (s : List UInt8) : Option (List UInt8 × List UInt8) :=
  let s := s.dropWhile (· == sep)
  if s = [] then none else some (s.takeWhile (· != sep), (s.dropWhile (· != sep)).tail)

def validField (token : List UInt8) : Bool :=
  token.head? != some 43 && token.head? != some 45 &&
    (strtol token).2 == [] && (strtol token).1 ≤ 255

def validFields : Nat → List UInt8 → Bool
  | 0, _ => true
  | n + 1, s =>
    match strtokR 46 s with
    | none => false
    | some (token, rest) => validField token && validFields n rest

def validateIpAddress (pcIpAddr : List UInt8) : Bool :=
  validFields 4 ((pcIpAddr.take 15).takeWhile (· != 44))

/-- A field that passes: blanks, behind blanks also a sign, and digits to the end, of a number of at
most 255 or behind a minus sign. -/
def LooseNumber (field : List UInt8) : Prop :=
  ∃ blanks sign run, field = blanks ++ (sign ++ run) ∧ (∀ c ∈ blanks, isspace c = true) ∧
    (sign = [] ∨ blanks ≠ [] ∧ (sign = [43] ∨ sign = [45])) ∧
    run ≠ [] ∧ (∀ c ∈ run, isdigit c = true) ∧ (sign = [45] ∨ run.foldl addDecimal 0 ≤ 255)

/-- The fields that are not empty. -/
def fields (text : List UInt8) : List (List UInt8) :=
  (text.splitOn 46).filter (· ≠ [])

theorem isspace_false_of_isdigit {c : UInt8} (h : isdigit c = true) : isspace c = false := by
  unfold isdigit decimalDigit at h
  simp only [isspace, UInt8.le_iff_toNat_le, beq_eq_false_iff_ne, ne_eq, ← UInt8.toNat_inj,
    Bool.or_eq_false_iff, Bool.and_eq_false_iff, decide_eq_false_iff_not]
  grind

theorem le_foldl_addDecimal (run : List UInt8) (value : Nat) :
    value ≤ run.foldl addDecimal value := by
  induction run generalizing value with
  | nil => exact le_refl _
  | cons c run ih =>
    have h := ih (addDecimal value c)
    rw [foldl_cons]
    unfold addDecimal at h ⊢
    omega

private theorem foldlM_addDigit (run : List UInt8) {value : Nat} (hvalue : value ≤ 255) :
    (run.foldlM addDigit value).isSome ↔ run.all isdigit ∧ run.foldl addDecimal value ≤ 255 := by
  induction run generalizing value with
  | nil => simp [hvalue]
  | cons c run ih =>
    have hle := le_foldl_addDecimal run (addDecimal value c)
    rw [foldlM_cons, all_cons, foldl_cons, addDigit, isdigit]
    cases hdigit : decimalDigit c with
    | none => simp
    | some d =>
      have hadd : addDecimal value c = value * 10 + d := by
        rw [addDecimal, hdigit]
        rfl
      rw [hadd] at hle ⊢
      simp only [bind_some, isSome_some, Bool.true_and]
      split
      next hoctet => exact ih hoctet
      next hoctet => simp; omega

private theorem strtokR_append {a rest : List UInt8} (hne : a ≠ []) (ha : 46 ∉ a)
    (hrest : ∀ c ∈ rest.head?, c = 46) : strtokR 46 (a ++ rest) = some (a, rest.tail) := by
  obtain ⟨c, a, rfl⟩ := exists_cons_of_ne_nil hne
  have hc : c ≠ 46 := fun h => ha (h ▸ mem_cons_self)
  have hall : ∀ d ∈ c :: a, (d != 46) = true := fun d hd => bne_iff_ne.mpr fun h => ha (h ▸ hd)
  rw [strtokR, cons_append, dropWhile_cons_of_neg (by simpa using hc), if_neg (cons_ne_nil _ _),
    ← cons_append, takeWhile_append_of_pos hall, dropWhile_append_of_pos hall]
  cases rest with
  | nil => simp
  | cons d rest => simp [hrest d rfl]


/-- What `strtol` makes of blanks, a sign and digits. -/
theorem strtol_eq {blanks sign run : List UInt8} (hblanks : ∀ c ∈ blanks, isspace c = true)
    (hsign : sign = [] ∨ sign = [43] ∨ sign = [45]) (hrun : run ≠ [])
    (hdigits : ∀ c ∈ run, isdigit c = true) :
    strtol (blanks ++ (sign ++ run)) =
      (max (-2 ^ 31) (min (if sign = [45] then -((run.foldl addDecimal 0 : Nat) : Int)
        else (run.foldl addDecimal 0 : Nat)) (2 ^ 31 - 1)), []) := by
  obtain ⟨d, run, rfl⟩ := exists_cons_of_ne_nil hrun
  have hd := hdigits d mem_cons_self
  have hspace := isspace_false_of_isdigit hd
  have hplus : d ≠ 43 := fun h => by subst h; cases hd
  have hminus : d ≠ 45 := fun h => by subst h; cases hd
  have htake : (d :: run).takeWhile isdigit = d :: run := takeWhile_eq_self_iff.mpr hdigits
  have hdrop : (d :: run).dropWhile isdigit = [] := dropWhile_eq_nil_iff.mpr hdigits
  have hfirst : (sign ++ d :: run).dropWhile isspace = sign ++ d :: run := by
    rcases hsign with rfl | rfl | rfl
    · rw [nil_append, dropWhile_cons_of_neg (by simp [hspace])]
    · rfl
    · rfl
  rw [strtol, dropWhile_append_of_pos hblanks, hfirst]
  rcases hsign with rfl | rfl | rfl
  · simp [hplus, hminus, htake, hdrop]
  · simp [htake, hdrop]
  · simp [htake, hdrop]

/-- Behind blanks and a sign, `strtol` gets to the end of a text only over digits. -/
theorem strtol_end {field : List UInt8} (hne : field ≠ []) (hend : (strtol field).2 = []) :
    ∃ blanks sign run, field = blanks ++ (sign ++ run) ∧ (∀ c ∈ blanks, isspace c = true) ∧
      (sign = [] ∨ sign = [43] ∨ sign = [45]) ∧ run ≠ [] ∧ ∀ c ∈ run, isdigit c = true := by
  have hsplit : field = field.takeWhile isspace ++ field.dropWhile isspace :=
    takeWhile_append_dropWhile.symm
  have hblanks : ∀ c ∈ field.takeWhile isspace, isspace c = true := fun c hc =>
    mem_takeWhile_imp hc
  have hsign : ∃ sign, (sign = [] ∨ sign = [43] ∨ sign = [45]) ∧
      field.dropWhile isspace = sign ++ (if (field.dropWhile isspace).head? = some 43 ∨
        (field.dropWhile isspace).head? = some 45 then (field.dropWhile isspace).tail
        else field.dropWhile isspace) := by
    cases field.dropWhile isspace with
    | nil => exact ⟨[], .inl rfl, by simp⟩
    | cons c rest => 
      by_cases hplus : c = 43
      · exact ⟨[43], .inr (.inl rfl), by simp [hplus]⟩
      · by_cases hminus : c = 45
        · exact ⟨[45], .inr (.inr rfl), by simp [hminus]⟩
        · exact ⟨[], .inl rfl, by simp [hplus, hminus]⟩
  obtain ⟨sign, hsign, hunsigned⟩ := hsign
  simp only [strtol] at hend
  generalize (if (field.dropWhile isspace).head? = some 43 ∨
        (field.dropWhile isspace).head? = some 45 then (field.dropWhile isspace).tail
        else field.dropWhile isspace) = unsigned at hend hunsigned
  split at hend
  · exact absurd hend hne
  · next hrun =>
    have hdigits := dropWhile_eq_nil_iff.mp hend
    refine ⟨_, sign, unsigned, hunsigned ▸ hsplit, hblanks, hsign, ?_, hdigits⟩
    rintro rfl
    exact hrun rfl

/-- A field passes exactly if it is a number in this sense. -/
theorem validField_iff {field : List UInt8} (hne : field ≠ []) :
    validField field = true ↔ LooseNumber field := by
  simp only [validField, Bool.and_eq_true, bne_iff_ne, beq_iff_eq, decide_eq_true_eq]
  constructor
  · rintro ⟨⟨⟨hplus, hminus⟩, hend⟩, hvalue⟩
    obtain ⟨blanks, sign, run, rfl, hblanks, hsign, hrun, hdigits⟩ := strtol_end hne hend
    rw [strtol_eq hblanks hsign hrun hdigits] at hvalue
    refine ⟨blanks, sign, run, rfl, hblanks, ?_, hrun, hdigits, ?_⟩
    · rcases hsign with hsign | hsign
      · exact .inl hsign
      · refine .inr ⟨?_, hsign⟩
        rintro rfl
        rcases hsign with rfl | rfl
        · exact hplus rfl
        · exact hminus rfl
    · by_cases hneg : sign = [45]
      · exact .inl hneg
      · simp only [if_neg hneg] at hvalue
        right
        omega
  · rintro ⟨blanks, sign, run, rfl, hblanks, hsign, hrun, hdigits, hvalue⟩
    have hsigns : sign = [] ∨ sign = [43] ∨ sign = [45] := by tauto
    have hhead {c : UInt8} (hspace : isspace c = false) (hdigit : isdigit c = false) :
        (blanks ++ (sign ++ run)).head? ≠ some c := by
      intro hhead
      rcases hsign with rfl | ⟨hblank, -⟩
      · cases blanks with
        | nil =>
          rw [hdigits c (mem_of_head? hhead)] at hdigit
          cases hdigit
        | cons b blanks =>
          obtain rfl : b = c := by simpa using hhead
          rw [hblanks b mem_cons_self] at hspace
          cases hspace
      · obtain ⟨b, blanks, rfl⟩ := exists_cons_of_ne_nil hblank
        obtain rfl : b = c := by simpa using hhead
        rw [hblanks b mem_cons_self] at hspace
        cases hspace
    rw [strtol_eq hblanks hsigns hrun hdigits]
    refine ⟨⟨⟨hhead rfl rfl, hhead rfl rfl⟩, rfl⟩, ?_⟩
    split
    · omega
    · next hneg =>
      have := hvalue.resolve_left hneg
      omega

private theorem fields_cons_dot (text : List UInt8) : fields (46 :: text) = fields text := by
  simp [fields, splitOn_cons_eq_if_modifyHead]

/-- The text up to the next separator is the first field. -/
theorem fields_append {a rest : List UInt8} (hne : a ≠ []) (ha : 46 ∉ a)
    (hrest : ∀ c ∈ rest.head?, c = 46) : fields (a ++ rest) = a :: fields rest.tail := by
  cases rest with
  | nil => simp [fields, splitOn_eq_singleton ha, hne]
  | cons c rest =>
    obtain rfl := hrest c rfl
    simp [fields, splitOn_append_cons_self_of_not_mem ha, hne]

/-- `strtok_r` takes the fields that are not empty one after the other. -/
theorem strtokR_fields (text : List UInt8) :
    (fields text = [] ∧ strtokR 46 text = none) ∨
    ∃ field rest, fields text = field :: fields rest ∧ strtokR 46 text = some (field, rest) := by
  induction text with
  | nil => exact .inl ⟨rfl, rfl⟩
  | cons c text ih =>
    by_cases hc : c = 46
    · subst hc
      rw [fields_cons_dot]
      exact ih
    · right
      have hall : ∀ d ∈ (c :: text).takeWhile (· != 46), d ≠ 46 := fun d hd =>
        bne_iff_ne.mp (by simpa using mem_takeWhile_imp hd)
      have hne : (c :: text).takeWhile (· != 46) ≠ [] := by simp [hc]
      have hmem : (46 : UInt8) ∉ (c :: text).takeWhile (· != 46) := fun h => hall 46 h rfl
      have hrest : ∀ d ∈ ((c :: text).dropWhile (· != 46)).head?, d = 46 := by
        intro d hd
        have hstop := head?_dropWhile_not (· != 46) (c :: text)
        rw [Option.mem_def.mp hd] at hstop
        simpa using hstop
      rw [← takeWhile_append_dropWhile (p := (· != 46)) (l := c :: text)]
      exact ⟨_, _, fields_append hne hmem hrest, strtokR_append hne hmem hrest⟩

private theorem validFields_iff (n : Nat) (text : List UInt8) : validFields n text = true ↔
    n ≤ (fields text).length ∧ ∀ field ∈ (fields text).take n, LooseNumber field := by
  induction n generalizing text with
  | zero => simp [validFields]
  | succ n ih =>
    rcases strtokR_fields text with ⟨hnone, htok⟩ | ⟨field, rest, hfields, htok⟩
    · simp [validFields, hnone, htok]
    · have hne : field ≠ [] := by
        have hmem : field ∈ fields text := hfields ▸ mem_cons_self
        simpa using (mem_filter.mp hmem).2
      simp only [validFields, htok, hfields, Bool.and_eq_true, ih, validField_iff hne, length_cons,
        take_succ_cons, forall_mem_cons, Nat.succ_le_succ_iff]
      tauto

/-- A field of the beginning of a text is the beginning of a field. -/
theorem exists_prefix_of_mem_splitOn_take (text : List UInt8) (n : Nat) {field : List UInt8}
    (h : field ∈ (text.take n).splitOn 46) : ∃ whole ∈ text.splitOn 46, field <+: whole := by
  by_cases hdot : 46 ∈ text
  · obtain ⟨a, b, rfl, ha⟩ := eq_append_cons_of_mem hdot
    rw [splitOn_append_cons_self_of_not_mem ha]
    rcases le_or_gt n a.length with hn | hn
    · rw [take_append_of_le_length hn,
        splitOn_eq_singleton (fun hmem => ha (mem_of_mem_take hmem)), mem_singleton] at h
      exact ⟨a, mem_cons_self, h ▸ take_prefix n a⟩
    · obtain ⟨m, rfl⟩ := Nat.exists_eq_add_of_lt hn
      rw [add_assoc, take_length_add_append, take_succ_cons,
        splitOn_append_cons_self_of_not_mem ha, mem_cons] at h
      rcases h with rfl | h
      · exact ⟨field, mem_cons_self, prefix_rfl⟩
      · obtain ⟨whole, hwhole, hstart⟩ := exists_prefix_of_mem_splitOn_take b m h
        exact ⟨whole, mem_cons_of_mem _ hwhole, hstart⟩
  · rw [splitOn_eq_singleton (fun hmem => hdot (mem_of_mem_take hmem)), mem_singleton] at h
    exact ⟨text, by rw [splitOn_eq_singleton hdot]; exact mem_singleton_self _,
      h ▸ take_prefix n text⟩
termination_by text.length

/-- The beginning of a number of at most 255 is one too. -/
theorem looseNumber_of_prefix {field whole : List UInt8} (hstart : field <+: whole)
    (hne : field ≠ []) (hwhole : (octet whole).isSome) : LooseNumber field := by
  obtain ⟨rest, rfl⟩ := hstart
  rw [octet, if_neg (by simp [hne]), isSome_map, foldlM_addDigit _ (Nat.zero_le 255)] at hwhole
  obtain ⟨hdigits, hvalue⟩ := hwhole
  rw [all_append, Bool.and_eq_true] at hdigits
  rw [foldl_append] at hvalue
  exact ⟨[], [], field, rfl, by simp, .inl rfl, hne, all_eq_true.mp hdigits.1,
    .inr ((le_foldl_addDecimal rest _).trans hvalue)⟩

private theorem inetAton_isSome_iff (text : List UInt8) : (inetAton text).isSome ↔
    (text.splitOn 46).length = 4 ∧ ∀ part ∈ text.splitOn 46, (octet part).isSome := by
  unfold inetAton
  split
  next a b c d hsplit =>
    simp only [hsplit, length_cons, length_nil, forall_mem_cons, not_mem_nil, false_imp_iff,
      forall_true_iff, true_and, and_true]
    cases octet a <;> cases octet b <;> cases octet c <;> cases octet d <;> simp
  next hother =>
    refine iff_of_false (by simp) fun h => ?_
    obtain ⟨a, b, c, d, hsplit⟩ := length_eq_four.mp h.1
    exact hother a b c d hsplit

/-- What stands before the first comma. -/
def proxyPart (s : List UInt8) : List UInt8 :=
  s.takeWhile (· != 44)

/-- An address before the first comma is accepted if its first 15 characters have some of the
fourth field, and anything else is turned down if of the fields there that are not empty fewer than
four are left or one of the first four is no number. -/
theorem validate_ip_address_iff (s : List UInt8) :
    (validateIpAddress s = true ↔ (inetAton (proxyPart s)).isSome) ↔
      ((inetAton (proxyPart s)).isSome → 4 ≤ (fields ((proxyPart s).take 15)).length) ∧
      (inetAton (proxyPart s) = none → (fields ((proxyPart s).take 15)).length < 4 ∨
        ∃ field ∈ (fields ((proxyPart s).take 15)).take 4, ¬LooseNumber field) := by
  rw [validateIpAddress, ← take_takeWhile, validFields_iff]
  cases haddress : inetAton (proxyPart s) with
  | none =>
    rw [← proxyPart]
    simp only [isSome_none, Bool.false_eq_true, iff_false, false_imp_iff, true_and, true_imp_iff,
      not_and_or, not_le, not_forall, exists_prop]
  | some address =>
    have hquad := (inetAton_isSome_iff (proxyPart s)).mp (by simp [haddress])
    have hloose : ∀ field ∈ (fields ((proxyPart s).take 15)).take 4, LooseNumber field := by
      intro field hfield
      obtain ⟨hmem, hne⟩ := mem_filter.mp (mem_of_mem_take hfield)
      obtain ⟨whole, hwhole, hstart⟩ := exists_prefix_of_mem_splitOn_take _ _ hmem
      exact looseNumber_of_prefix hstart (by simpa using hne) (hquad.2 whole hwhole)
    rw [← proxyPart]
    simpa using fun _ => hloose

/-- An address, and a name of four fields and more than 15 characters: both are judged right. -/
theorem proxy_validated :
    (validateIpAddress (bytes "192.168.1.1,sip") = true ↔
      (inetAton (proxyPart (bytes "192.168.1.1,sip"))).isSome) ∧
    (validateIpAddress (bytes "sip.provider.example.com") = true ↔
      (inetAton (proxyPart (bytes "sip.provider.example.com"))).isSome) :=
  ⟨(validate_ip_address_iff (bytes "192.168.1.1,sip")).mpr
      ⟨by decide +kernel, fun h => absurd h (by decide +kernel)⟩,
    (validate_ip_address_iff (bytes "sip.provider.example.com")).mpr
      ⟨fun h => absurd h (by decide +kernel), fun _ => .inl (by decide +kernel)⟩⟩

/-- Five fields, an empty field, a negative number, and 16 characters. -/
theorem malformed_accepted : [bytes "1.2.3.4.5", bytes "1..2.3.4", bytes "1.2. -3.4",
    bytes "192.168.100.1000"].all fun s => validateIpAddress s && (inetAton s).isNone := by
  decide +kernel

end EchoLife.Dhcp
