import EchoLife.Base.Tokens
import EchoLife.Bridge.FrameFinish
import EchoLife.Dhcp.Server
import Mathlib.Data.List.TakeWhile

/-!
Vendors in configured lists. `isOption60Correct`, of which the bridge and the DHCP server have a
copy each, looks at the first place where the vendor class occurs only; `check_option60` goes on
from there, but not from the last byte.
-/

namespace EchoLife.Bridge

open List Tokens

section
variable {text pattern : List UInt8}

theorem strstr_eq_some {i : Nat} : strstr text pattern = some i ↔
    i ≤ text.length ∧ pattern <+: text.drop i ∧ ∀ j < i, ¬pattern <+: text.drop j := by
  simp only [strstr, find?_range_eq_some, isPrefixOf_iff_prefix, mem_range,
    Nat.lt_succ_iff, Bool.not_eq_true', ← Bool.not_eq_true]
  tauto

private theorem strstr_eq_none : strstr text pattern = none ↔ ∀ i, ¬pattern <+: text.drop i := by
  simp only [strstr, find?_eq_none, mem_range, Nat.lt_succ_iff, isPrefixOf_iff_prefix]
  constructor
  · intro h i
    rcases le_total i text.length with hi | hi
    · exact h i hi
    · have hend := h text.length le_rfl
      rwa [drop_eq_nil_of_le hi, ← drop_length]
  · exact fun h i _ => h i

theorem dhcp_strstr_eq (text : List UInt8) (pos : Nat) :
    Dhcp.strstr pattern text pos = (strstr text pattern).map (pos + ·) := by
  induction text generalizing pos with
  | nil => cases pattern <;> simp [Dhcp.strstr, strstr]
  | cons c rest ih =>
    simp only [Dhcp.strstr, ih, strstr, length_cons]
    rw [range_succ_eq_map (n := rest.length + 1), find?_cons]
    simp only [drop_zero, find?_map]
    cases pattern.isPrefixOf (c :: rest) with
    | true => simp
    | false =>
      simp [Function.comp_def, add_assoc, add_comm 1]

theorem neighbours_iff {sep : UInt8} {i : Nat} (htext : 0 ∉ text) (hsep : sep ≠ 0)
    (hat : pattern <+: text.drop i) :
    ((text[i + pattern.length]?.getD 0 = sep ∨ text[i + pattern.length]?.getD 0 = 0) ∧
      (i = 0 ∨ text[i - 1]?.getD 0 = sep)) ↔ Delimited sep text pattern i := by
  have hsome (k : Nat) : text[k]?.getD 0 = sep ↔ text[k]? = some sep := by
    cases text[k]? with
    | none => simp [hsep.symm]
    | some c => simp
  have hnone (k : Nat) : text[k]?.getD 0 = 0 ↔ text[k]? = none := by
    cases hk : text[k]? with
    | none => simp
    | some c => simpa using ne_of_mem_of_not_mem (mem_of_getElem? hk) htext
  rw [hsome, hnone, hsome, Delimited]
  tauto

/-- The tokens of the vendor class, which is one unless it holds a separator, are listed one after
the other, and its text does not occur before that place. -/
def ListedFirst (configured vendorid : List UInt8) : Prop :=
  ∃ before after, configured.splitOn 0x25 = before ++ (vendorid.splitOn 0x25 ++ after) ∧
    ∀ i < startAfter before, ¬vendorid <+: configured.drop i

theorem listedFirst_iff {configured vendorid : List UInt8} : ListedFirst configured vendorid ↔
    ∃ i, strstr configured vendorid = some i ∧ Delimited 0x25 configured vendorid i := by
  simp only [strstr_eq_some, delimited_iff]
  constructor
  · rintro ⟨before, after, hsplit, hfirst⟩
    obtain ⟨hat, hbefore, hafter⟩ := (delimited_iff _ _).mpr ⟨before, after, hsplit, rfl⟩
    have hle : startAfter before ≤ configured.length := by
      rcases hbefore with hzero | hsep
      · omega
      · have hlt := (List.getElem?_eq_some_iff.mp hsep).1
        omega
    exact ⟨_, ⟨hle, hat, hfirst⟩, before, after, hsplit, rfl⟩
  · rintro ⟨i, ⟨-, -, hfirst⟩, before, after, hsplit, rfl⟩
    exact ⟨before, after, hsplit, hfirst⟩

/-- A vendor class of 1 to 127 bytes is found if what stands before its terminator is listed where
it first occurs. -/
theorem dhcp_correct_iff {configured vendorid : List UInt8} (hconfigured : 0 ∉ configured) :
    Dhcp.isOption60Correct configured vendorid = true ↔
      (0 < vendorid.length ∧ vendorid.length < 128) ∧
        ListedFirst configured (vendorid.takeWhile (· ≠ 0)) := by
  rw [listedFirst_iff]
  by_cases hlength : 0 < vendorid.length ∧ vendorid.length < 128
  · simp only [Dhcp.isOption60Correct, dhcp_strstr_eq, hlength, true_and]
    cases hfind : strstr configured (vendorid.takeWhile (· ≠ 0)) with
    | none => simp
    | some i =>
      have hat := (strstr_eq_some.mp hfind).2.1
      simpa using neighbours_iff hconfigured (by decide : (0x25 : UInt8) ≠ 0) hat
  · simp [Dhcp.isOption60Correct, hlength]

end

/-- The bytes of a vendor class. -/
def vendorBytes (userVendorId : Nat → UInt8) (opt60Len : Nat) : List UInt8 :=
  (range opt60Len).map userVendorId

/-- The two copies agree. They say whether a vendor class is a token exactly if a token has 1 to
127 bytes and its text does not occur before it is listed, and of a vendor class that is none, which
is then empty or too long or has a terminator or separator in it, the part before the terminator is
not listed where it first occurs. -/
theorem vendor_class_right_iff (configured : List UInt8) (hconfigured : 0 ∉ configured)
    (userVendorId : Nat → UInt8) (opt60Len : Nat) :
    isOption60Correct configured userVendorId opt60Len =
      Dhcp.isOption60Correct configured (vendorBytes userVendorId opt60Len) ∧
    ((isOption60Correct configured userVendorId opt60Len = true ↔
        vendorBytes userVendorId opt60Len ∈ configured.splitOn 0x25) ↔
      (vendorBytes userVendorId opt60Len ∈ configured.splitOn 0x25 →
        0 < opt60Len ∧ opt60Len < 128 ∧
          ListedFirst configured (vendorBytes userVendorId opt60Len)) ∧
      (vendorBytes userVendorId opt60Len ∉ configured.splitOn 0x25 →
        0 < opt60Len → opt60Len < 128 →
          ¬ListedFirst configured ((vendorBytes userVendorId opt60Len).takeWhile (· ≠ 0)))) := by
  have hlength : (vendorBytes userVendorId opt60Len).length = opt60Len := by simp [vendorBytes]
  have hagree : isOption60Correct configured userVendorId opt60Len =
      Dhcp.isOption60Correct configured (vendorBytes userVendorId opt60Len) := by
    simp only [isOption60Correct, Dhcp.isOption60Correct, dhcp_strstr_eq, vendorBytes]
    cases strstr configured (((range opt60Len).map userVendorId).takeWhile (· ≠ 0)) with
    | none => simp
    | some i => simp
  refine ⟨hagree, ?_⟩
  rw [hagree, dhcp_correct_iff hconfigured, hlength]
  by_cases htoken : vendorBytes userVendorId opt60Len ∈ configured.splitOn 0x25
  · have hwhole : (vendorBytes userVendorId opt60Len).takeWhile (· ≠ 0) =
        vendorBytes userVendorId opt60Len := by
      obtain ⟨i, hat, -⟩ := (mem_splitOn_iff (not_mem_of_mem_splitOn _ htoken) _).mp htoken
      rw [takeWhile_eq_self_iff]
      intro c hc
      have hin := mem_of_mem_drop (hat.subset hc)
      exact decide_eq_true (ne_of_mem_of_not_mem hin hconfigured)
    simp only [htoken, hwhole, iff_true, not_true_eq_false, false_imp_iff, and_true, true_imp_iff,
      and_assoc]
  · simp only [htoken, iff_false, false_imp_iff, true_and, not_false_eq_true, true_imp_iff, not_and,
      and_imp]

/-- The second token of `ab%c`, and a vendor class of 128 bytes that is none. -/
theorem second_vendor_found :
    (isOption60Correct [97, 98, 37, 99] (fun _ => 99) 1 = true ↔
      vendorBytes (fun _ => 99) 1 ∈ [97, 98, 37, 99].splitOn (0x25 : UInt8)) ∧
    (isOption60Correct [97, 98, 37, 99] (fun _ => 99) 128 = true ↔
      vendorBytes (fun _ => 99) 128 ∈ [97, 98, 37, 99].splitOn (0x25 : UInt8)) := by
  constructor
  · refine (vendor_class_right_iff [97, 98, 37, 99] (by decide) (fun _ => 99) 1).2.mpr ⟨?_, ?_⟩
    · exact fun _ => ⟨by decide, by decide, [[97, 98]], [], by decide, by decide⟩
    · exact fun h => absurd (by decide) h
  · refine (vendor_class_right_iff [97, 98, 37, 99] (by decide) (fun _ => 99) 128).2.mpr ⟨?_, ?_⟩
    · exact fun h => absurd h (by decide)
    · exact fun _ _ h => absurd h (by decide)

/-- The vendor `ab` is a token of `xab%ab`, but stands in another one before that. -/
theorem vendor_inside_other_missed :
    [97, 98] ∈ [120, 97, 98, 37, 97, 98].splitOn (0x25 : UInt8) ∧
    isOption60Correct [120, 97, 98, 37, 97, 98] (fun i => 97 + i.toUInt8) 2 = false ∧
    Dhcp.isOption60Correct [120, 97, 98, 37, 97, 98] [97, 98] = false := by
  decide

/-! ### The vendor of a port mapping -/

/-- The loop of `check_option60` at the place `l`, `none` while it has not ended. From the
last byte it does not move on. -/
def checkLoop (optionstr vendorstr : List UInt8) : Nat → Option Nat → Option Bool
  | 0, _ => none
  | _ + 1, none => some false
  | fuel + 1, some l =>
    let next := optionstr.getD (l + vendorstr.length) 0
    if (l = 0 ∨ optionstr.getD (l - 1) 0 = 0x7c) ∧ (next = 0 ∨ next = 0x7c) then some true
    else if l + 1 < optionstr.length then
      checkLoop optionstr vendorstr fuel
        (Dhcp.strstr vendorstr (optionstr.drop (l + 1)) (l + 1))
    else checkLoop optionstr vendorstr fuel (some l)

/-- `check_option60` of the bridge. -/
def checkOption60 (fuel : Nat) (optionstr vendorstr : List UInt8) : Option Bool :=
  if vendorstr.length = 0 then some false
  else if optionstr.length = 0 then some false
  else checkLoop optionstr vendorstr fuel (strstr optionstr vendorstr)

/-- `check_option60` of the DHCP server, which searches before it looks at the lengths. -/
def serverCheckOption60 (fuel : Nat) (optionstr vendorstr : List UInt8) : Option Bool :=
  let l := Dhcp.strstr vendorstr optionstr 0
  if vendorstr.length = 0 then some false
  else if optionstr.length = 0 then some false
  else checkLoop optionstr vendorstr fuel l

section
variable {optionstr vendorstr : List UInt8} (hoption : 0 ∉ optionstr)
include hoption

theorem checkLoop_succ {l : Nat} (hat : vendorstr <+: optionstr.drop l) (fuel : Nat) :
    (Delimited 0x7c optionstr vendorstr l →
      checkLoop optionstr vendorstr (fuel + 1) (some l) = some true) ∧
    (¬Delimited 0x7c optionstr vendorstr l →
      checkLoop optionstr vendorstr (fuel + 1) (some l) =
        checkLoop optionstr vendorstr fuel (if l + 1 < optionstr.length then
          Dhcp.strstr vendorstr (optionstr.drop (l + 1)) (l + 1) else some l)) := by
  rw [← neighbours_iff hoption (by decide : (0x7c : UInt8) ≠ 0) hat]
  simp only [checkLoop, getD_eq_getElem?_getD]
  constructor
  · intro h
    rw [if_pos (by tauto)]
  · intro h
    rw [if_neg (by tauto)]
    split <;> rfl

/-- At the last byte, and not at a token, the loop stays. -/
theorem checkLoop_stays {l : Nat} (hat : vendorstr <+: optionstr.drop l)
    (hlast : optionstr.length ≤ l + 1) (hnot : ¬Delimited 0x7c optionstr vendorstr l)
    (fuel : Nat) : checkLoop optionstr vendorstr fuel (some l) = none := by
  induction fuel with
  | zero => rfl
  | succ fuel ih => rw [(checkLoop_succ hoption hat fuel).2 hnot, if_neg (by omega), ih]

/-- From `start` on the loop finds a vendor between separators. Without one it ends,
unless the vendor is the last byte. -/
theorem checkLoop_spec (hne : vendorstr ≠ []) (fuel start : Nat)
    (hstart : start < optionstr.length) (hfuel : optionstr.length < start + fuel) :
    let found := checkLoop optionstr vendorstr fuel
      (Dhcp.strstr vendorstr (optionstr.drop start) start)
    (found = some true ∧ ∃ i, start ≤ i ∧ Delimited 0x7c optionstr vendorstr i) ∨
    (∀ i, start ≤ i → ¬Delimited 0x7c optionstr vendorstr i) ∧
      found = if vendorstr = optionstr.drop (optionstr.length - 1) then none
        else some false := by
  induction fuel generalizing start with
  | zero => omega
  | succ fuel ih =>
    rw [dhcp_strstr_eq]
    cases hfind : strstr (optionstr.drop start) vendorstr with
    | none =>
      have hnowhere (i : Nat) (hi : start ≤ i) : ¬vendorstr <+: optionstr.drop i := by
        have h := strstr_eq_none.mp hfind (i - start)
        rwa [drop_drop, Nat.add_sub_cancel' hi] at h
      refine .inr ⟨fun i hi h => hnowhere i hi h.1, ?_⟩
      have hlast : vendorstr ≠ optionstr.drop (optionstr.length - 1) := fun h =>
        hnowhere _ (Nat.le_sub_one_of_lt hstart) (h ▸ prefix_rfl)
      rw [if_neg hlast]
      rfl
    | some k =>
      obtain ⟨-, hat, hfirst⟩ := strstr_eq_some.mp hfind
      rw [drop_drop] at hat
      rw [Option.map_some]
      by_cases hdelimited : Delimited 0x7c optionstr vendorstr (start + k)
      · exact .inl ⟨(checkLoop_succ hoption hat fuel).1 hdelimited, _, by omega, hdelimited⟩
      have hskip {i : Nat} (hi : start ≤ i) (h : Delimited 0x7c optionstr vendorstr i) :
          start + k + 1 ≤ i := by
        rcases lt_trichotomy i (start + k) with hlt | rfl | hgt
        · have hnot := hfirst (i - start) (by omega)
          rw [drop_drop, Nat.add_sub_cancel' hi] at hnot
          exact absurd h.1 hnot
        · exact absurd h hdelimited
        · exact hgt
      rcases lt_or_ge (start + k + 1) optionstr.length with hmore | hlast
      · rw [(checkLoop_succ hoption hat fuel).2 hdelimited, if_pos hmore]
        rcases ih _ hmore (by omega) with ⟨htrue, i, hi, h⟩ | ⟨hnone, hfalse⟩
        · exact .inl ⟨htrue, i, by omega, h⟩
        · exact .inr ⟨fun i hi h => hnone i (hskip hi h) h, hfalse⟩
      · rw [checkLoop_stays hoption hat hlast hdelimited]
        have hlength := hat.length_le
        have hpos := length_pos_of_ne_nil hne
        rw [length_drop] at hlength
        obtain hplace : start + k = optionstr.length - 1 := by omega
        rw [hplace] at hat hskip
        refine .inr ⟨fun i hi h => ?_, ?_⟩
        · have hlate := hskip hi h
          have hbound := h.1.length_le
          rw [length_drop] at hbound
          omega
        · rw [if_pos (hat.eq_of_length_le (by rw [length_drop]; omega))]

end

/-- On strings without terminators inside, and with enough steps, both copies end and say
whether the vendor is a token, exactly if an empty vendor is none, and another one that is
none is not the last byte of the option string and, should it hold a separator, does not
stand between separators either. -/
theorem check_option60_right_iff (optionstr vendorstr : List UInt8) (hoption : 0 ∉ optionstr)
    (fuel : Nat) (hfuel : optionstr.length < fuel) :
    ∀ check ∈ [checkOption60, serverCheckOption60],
      check fuel optionstr vendorstr = some (decide (vendorstr ∈ optionstr.splitOn 0x7c)) ↔
        (vendorstr ∈ optionstr.splitOn 0x7c → vendorstr ≠ []) ∧
        (vendorstr ∉ optionstr.splitOn 0x7c → vendorstr ≠ [] →
          vendorstr ≠ optionstr.drop (optionstr.length - 1) ∧
          ∀ i, ¬Delimited 0x7c optionstr vendorstr i) := by
  intro check hcheck
  have hboth : check fuel optionstr vendorstr = serverCheckOption60 fuel optionstr vendorstr := by
    rcases mem_pair.mp hcheck with rfl | rfl
    · simp [serverCheckOption60, checkOption60, dhcp_strstr_eq]
    · rfl
  rw [hboth, serverCheckOption60]
  rcases eq_or_ne vendorstr [] with rfl | hne
  · simp
  rw [if_neg (by simpa using hne)]
  rcases eq_or_ne optionstr [] with rfl | hfull
  · simp [Delimited, hne]
  have hspec := checkLoop_spec hoption hne fuel 0 (length_pos_of_ne_nil hfull) (by omega)
  rw [drop_zero] at hspec
  rw [if_neg (by simpa using hfull)]
  rcases hspec with ⟨htrue, i, -, hdelimited⟩ | ⟨hnone, heq⟩
  · rw [htrue]
    by_cases htoken : vendorstr ∈ optionstr.splitOn 0x7c
    · simp [htoken, hne]
    · rw [decide_eq_false htoken]
      refine iff_of_false (by decide) fun h => ?_
      exact (h.2 htoken hne).2 i hdelimited
  · have htoken : vendorstr ∉ optionstr.splitOn 0x7c := by
      intro h
      obtain ⟨i, hdelimited⟩ := (mem_splitOn_iff (not_mem_of_mem_splitOn _ h) _).mp h
      exact hnone i (Nat.zero_le i) hdelimited
    rw [heq]
    split
    next hlast => simpa [htoken, hne] using fun h => absurd hlast h
    next hlast => simpa [htoken, hne, hlast] using hnone

theorem second_mapping_found :
    checkOption60 4 [97, 124, 98] [98] =
      some (decide ([98] ∈ [97, 124, 98].splitOn (0x7c : UInt8))) :=
  (check_option60_right_iff [97, 124, 98] [98] (by decide) 4 (by decide) checkOption60
    mem_cons_self).mpr ⟨by decide, fun h => absurd (by decide) h⟩

/-- The vendor `a` is no token of `xa`, and the loops stay at its last byte. -/
theorem last_byte_endless :
    [97] ∉ [120, 97].splitOn (0x7c : UInt8) ∧
    ¬∃ fuel, checkOption60 fuel [120, 97] [97] ≠ none ∨
      serverCheckOption60 fuel [120, 97] [97] ≠ none := by
  refine ⟨by decide, ?_⟩
  rintro ⟨fuel, hended⟩
  have hat : [97] <+: [(120 : UInt8), 97].drop 1 := by decide
  have hstays := checkLoop_stays (by decide : 0 ∉ [(120 : UInt8), 97]) hat le_rfl
    (by simp [Delimited]) fuel
  exact hended.elim (fun h => h hstays) fun h => h hstays

end EchoLife.Bridge
