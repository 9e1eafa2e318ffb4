import EchoLife.Flash.ScratchPadTokens

/-!
The scratch pad as a key-value store. The abstract store is a map from names to
data; every call that returns 0 updates it, and on every run whose calls avoid
the defects of the packed format `kerSysScratchPadGet` reads the store.
-/

namespace EchoLife.Flash

open Buffer CString List Option Run Word

theorem spToken_name (chars : List UInt8) (bufLen : Int) {i : Nat} (hi : i < 16) :
    spToken chars bufLen i = CString.buffer (chars.take 15) i := by
  simp only [spToken, tokenNameLen]
  rw [blit_outside _ _ (.inl hi)]
  rcases lt_or_ge i 15 with hlt | hge
  · rw [blit_inside _ _ (Nat.zero_le i) (by omega), Nat.sub_zero]
    simp only [CString.buffer, getD_eq_getElem?_getD, getElem?_take, hlt, if_true]
  · rw [blit_outside _ _ (.inr (by omega)), buffer_of_le (by rw [length_take]; omega)]

theorem spToken_len (chars : List UInt8) {n : Nat} (hn : n < 8192) :
    be32 (spToken chars n) 16 = n := by
  have hword : u32 (n : Int) = n := u32_of_lt (by omega)
  have hbytes : be32 (spToken chars n) 16 = be32 (be32Bytes n) 0 := by
    apply be32_congr
    intro d hd
    simp only [spToken, tokenNameLen, hword]
    rw [blit_at _ _ hd, zero_add]
  rw [hbytes]
  exact be32_bytes (by omega)

theorem hasMagic_spHead (pBuf : Nat → UInt8) :
    hasMagic (blit pBuf 0 spHeaderSize spHead) = true := by
  have hhead : hasMagic spHead = true := by
    decide
  rw [← hhead]
  apply hasMagic_congr
  intro i hi
  exact blit_inside _ _ (Nat.zero_le i) (by simp only [spHeaderSize]; omega)

variable {pBuf : Nat → UInt8} {after before : List Token} {t : Token} {ts : List Token} {e q : Nat}

theorem padHolds_append (hlaid : Laid pBuf 32 ts e)
    (hclear : ∀ i, e + 20 ≤ i → i < 8192 → pBuf i = 0) (hnodup : (ts.map Token.name).Nodup)
    (t : Token) (hfresh : ∀ u ∈ ts, u.name ≠ t.name) (data : Nat → UInt8)
    (hdata : slice data 0 t.data.length = t.data) (hfit : e + t.size < 8192) :
    PadHolds (putAtEnd pBuf t.name.chars (some data) t.data.length e) (ts ++ [t]) (e + t.size) := by
  obtain ⟨_, hsize, _⟩ := t.size_bounds
  have hstart := hlaid.le
  simp only [spTokenSize] at hsize
  have hbefore {i : Nat} (hlo : 32 ≤ i) (hhi : i < e) :
      putAtEnd pBuf t.name.chars (some data) t.data.length e i = pBuf i := by
    simp only [putAtEnd, spHeaderSize, spTokenSize]
    rw [blit_outside _ _ (.inr (by omega)), blit_outside _ _ (.inl (by omega)),
      blit_outside _ _ (.inl hhi)]
  have hrecord {i : Nat} (hi : i < 20) :
      putAtEnd pBuf t.name.chars (some data) t.data.length e (e + i) =
        spToken t.name.chars t.data.length i := by
    simp only [putAtEnd, spHeaderSize, spTokenSize]
    rw [blit_outside _ _ (.inr (by omega)), blit_outside _ _ (.inl (by omega)), blit_at _ _ hi]
  have hbytes {i : Nat} (hi : i < t.data.length) :
      putAtEnd pBuf t.name.chars (some data) t.data.length e (e + 20 + i) = data i := by
    simp only [putAtEnd, spHeaderSize, spTokenSize, Int.toNat_natCast]
    rw [blit_outside _ _ (.inr (by omega)), blit_at _ _ hi]
  have hafter {i : Nat} (hi : e + 20 + t.data.length ≤ i) :
      putAtEnd pBuf t.name.chars (some data) t.data.length e i = pBuf i := by
    simp only [putAtEnd, spHeaderSize, spTokenSize, Int.toNat_natCast]
    rw [blit_outside _ _ (.inr (by omega)), blit_outside _ _ (.inr hi),
      blit_outside _ _ (.inr (by omega))]
  refine ⟨hasMagic_spHead _, ?_, hfit, .inl ?_, ?_, ?_⟩
  · refine (hlaid.congr ?_).append (Laid.cons ?_ ?_ ?_ (Laid.nil _))
    · intro i hlo hhi
      exact (hbefore hlo hhi).symm
    · intro i hi
      rw [hrecord (by omega), spToken_name _ _ hi, take_of_length_le t.storable.1]
    · refine (be32_congr ?_).trans (spToken_len t.name.chars (by omega))
      intro d hd
      rw [add_assoc]
      exact hrecord (i := 16 + d) (by omega)
    · refine (slice_congr ?_).trans hdata
      intro i hi
      rw [hbytes hi, zero_add]
  · rw [hafter (by omega)]
    exact hclear _ (by omega) hfit
  · intro i hlo hhi
    rw [hafter (by omega)]
    exact hclear i (by omega) hhi
  · rw [map_append, nodup_append]
    refine ⟨hnodup, by simp, ?_⟩
    intro name hname other hother
    simp only [map_cons, map_nil, mem_singleton] at hother
    obtain ⟨u, hu, rfl⟩ := mem_map.mp hname
    rw [hother]
    exact hfresh u hu

theorem removeToken_laid (hlow : Laid pBuf 32 before q) (hhigh : Laid pBuf q (t :: after) e) :
    Laid (removeToken 8192 pBuf e q) 32 (before ++ after) (e - t.size) ∧
      ∀ i, e - t.size ≤ i → i < 8192 → removeToken 8192 pBuf e q i = 0 := by
  cases hhigh with
  | cons hname hlen hdata hrest =>
    have hgap := hrest.le
    have hpad : removeToken 8192 pBuf e q =
        fill (blit pBuf q (e - (q + t.size)) (view pBuf (q + t.size)))
          (e - t.size) (8192 - (e - t.size)) 0 := by
      have hplace : q + (e - (q + t.size)) = e - t.size := by omega
      simp only [removeToken, tokenLenAt_of_be32 hlen]
      rw [show spTokenSize + skipLen t.data.length = t.size from rfl, hplace]
      rfl
    have hkept {i : Nat} (hi : i < e - t.size) :
        removeToken 8192 pBuf e q i =
          blit pBuf q (e - (q + t.size)) (view pBuf (q + t.size)) i := by
      rw [hpad]
      exact fill_outside _ _ (.inl hi)
    constructor
    · have hfirst : Laid (removeToken 8192 pBuf e q) 32 before q := by
        apply hlow.congr
        intro i _ hi
        rw [hkept (by omega), blit_outside _ _ (.inl hi)]
      have hsecond := hrest.transport (removeToken 8192 pBuf e q) q (by
        intro i hi
        rw [hkept (by omega), blit_at _ _ (by omega)]
        rfl)
      have hplace : q + (e - (q + t.size)) = e - t.size := by omega
      rw [hplace] at hsecond
      exact hfirst.append hsecond
    · intro i hlo hhi
      rw [hpad]
      exact fill_inside _ _ hlo (by omega)

def Token.withData (t : Token) (data : List UInt8)
    (hlength : data.length = t.data.length) : Token :=
  { t with
    data := data
    data_pos := hlength ▸ t.data_pos
    data_lt := hlength ▸ t.data_lt }

private theorem padHolds_overwrite (h : PadHolds pBuf (before ++ t :: after) e)
    (hlow : Laid pBuf 32 before q) (hhigh : Laid pBuf q (t :: after) e)
    (data : Nat → UInt8) (hlength : (slice data 0 t.data.length).length = t.data.length) :
    PadHolds (blit pBuf (q + 20) t.data.length data)
      (before ++ t.withData (slice data 0 t.data.length) hlength :: after) e := by
  obtain ⟨_, hsize, _⟩ := t.size_bounds
  simp only [spTokenSize] at hsize
  cases hhigh with
  | cons hname hlen hdata hrest =>
    have hstart := hlow.le
    have hgap := hrest.le
    have hend := h.end_lt
    have houtside {i : Nat} (hi : i < q + 20 ∨ q + 20 + t.data.length ≤ i) :
        blit pBuf (q + 20) t.data.length data i = pBuf i :=
      blit_outside _ _ hi
    have hsame : (t.withData (slice data 0 t.data.length) hlength).size = t.size := by
      simp only [Token.size, Token.withData, hlength]
    refine ⟨?_, ?_, hend, ?_, ?_, ?_⟩
    · rw [← h.magic]
      apply hasMagic_congr
      intro i hi
      exact houtside (.inl (by omega))
    · have hfirst : Laid (blit pBuf (q + 20) t.data.length data) 32 before q := by
        apply hlow.congr
        intro i _ hi
        exact (houtside (.inl (by omega))).symm
      refine hfirst.append (Laid.cons ?_ ?_ ?_ ?_)
      · intro i hi
        rw [houtside (.inl (by omega))]
        exact hname i hi
      · refine ((be32_congr ?_).trans hlen).trans hlength.symm
        intro d hd
        exact houtside (.inl (by omega))
      · simp only [Token.withData, hlength]
        apply slice_congr
        intro i hi
        rw [blit_at _ _ hi, zero_add]
      · rw [hsame]
        apply hrest.congr
        intro i hi _
        exact (houtside (.inr (by omega))).symm
    · rw [houtside (.inr (by omega))]
      refine h.stop.imp_right ?_
      omega
    · intro i hlo hhi
      rw [houtside (.inr (by omega))]
      exact h.clear i hlo hhi
    · have hnodup := h.nodup
      simp only [map_append, map_cons] at hnodup ⊢
      exact hnodup

def storeUpdate (spec : TokenName → Option (List UInt8)) (id : TokenName)
    (data : Option (List UInt8)) : TokenName → Option (List UInt8) :=
  fun name => if name = id then data else spec name

section

variable (hnodup : ((before ++ t :: after).map Token.name).Nodup)
include hnodup

theorem names_of_middle :
    (∀ u ∈ before ++ after, u.name ≠ t.name) ∧ ((before ++ after).map Token.name).Nodup := by
  have hperm : (before ++ t :: after).Perm (t :: (before ++ after)) :=
    perm_middle
  have hcons := (hperm.map Token.name).nodup_iff.mp hnodup
  rw [map_cons, nodup_cons] at hcons
  refine ⟨?_, hcons.2⟩
  intro u hu heq
  exact hcons.1 (heq ▸ mem_map_of_mem hu)

theorem lookup_remove (name : TokenName) :
    lookup name (before ++ after) =
      storeUpdate (fun n => lookup n (before ++ t :: after)) t.name none name := by
  simp only [storeUpdate, lookup_append]
  split
  next hname =>
    subst hname
    rw [← lookup_append]
    exact (lookup_eq_none_iff _ _).mpr (names_of_middle hnodup).1
  next hname =>
    simp only [lookup]
    rw [if_neg (Ne.symm hname)]

end

theorem lookup_append_token (ts : List Token) (t : Token)
    (hfresh : ∀ u ∈ ts, u.name ≠ t.name) (name : TokenName) :
    lookup name (ts ++ [t]) = storeUpdate (fun n => lookup n ts) t.name (some t.data) name := by
  by_cases hname : name = t.name
  · subst hname
    simp [storeUpdate, lookup_append, lookup, (lookup_eq_none_iff t.name ts).mpr hfresh]
  · simp [storeUpdate, lookup_append, lookup, hname, Ne.symm hname]

private theorem lookup_replace {u : Token} (hnodup : ((before ++ u :: after).map Token.name).Nodup)
    (hname : u.name = t.name) (name : TokenName) :
    lookup name (before ++ after ++ [t]) =
      storeUpdate (fun n => lookup n (before ++ u :: after)) t.name (some t.data)
        name := by
  have hfresh : ∀ v ∈ before ++ after, v.name ≠ t.name := by
    rw [← hname]
    exact (names_of_middle hnodup).1
  rw [lookup_append_token _ t hfresh]
  simp only [storeUpdate]
  split
  · rfl
  next hother =>
    rw [lookup_remove hnodup, storeUpdate, hname, if_neg hother]

private theorem lookup_overwrite (hbefore : ∀ u ∈ before, u.name ≠ t.name) (data : List UInt8)
    (hlength : data.length = t.data.length) (name : TokenName) :
    lookup name (before ++ t.withData data hlength :: after) =
      storeUpdate (fun n => lookup n (before ++ t :: after)) t.name (some data)
        name := by
  by_cases hname : name = t.name
  · subst hname
    simp [storeUpdate, lookup_append, lookup, Token.withData,
      (lookup_eq_none_iff t.name before).mpr hbefore]
  · simp [storeUpdate, lookup_append, lookup, Token.withData, hname, Ne.symm hname]

/-- The pad holds the store `spec`: it is blank, or it holds tokens that look up
to it. -/
def Represents (pBuf : Nat → UInt8) (spec : TokenName → Option (List UInt8)) : Prop :=
  ((∀ i, i < 8192 → pBuf i = 0) ∧ ∀ id, spec id = none) ∨
    ∃ ts e, PadHolds pBuf ts e ∧ ∀ id, spec id = lookup id ts

theorem Represents.congr {left right : Nat → UInt8} {spec : TokenName → Option (List UInt8)}
    (h : Represents left spec) (hsame : AgreeOn left right 0 8192) : Represents right spec := by
  rcases h with ⟨hzero, hnone⟩ | ⟨ts, e, hpad, hspec⟩
  · refine .inl ⟨?_, hnone⟩
    intro i hi
    rw [← hsame i (Nat.zero_le i) hi]
    exact hzero i hi
  · exact .inr ⟨ts, e, hpad.congr hsame, hspec⟩

theorem PadHolds.renewHeader (h : PadHolds pBuf ts e) :
    PadHolds (blit pBuf 0 spHeaderSize spHead) ts e := by
  have hstart := h.laid.le
  have hbyte {i : Nat} (hi : 32 ≤ i) : blit pBuf 0 spHeaderSize spHead i = pBuf i :=
    blit_outside _ _ (.inr (by simp only [spHeaderSize]; omega))
  refine ⟨hasMagic_spHead pBuf, ?_, h.end_lt, ?_, ?_, h.nodup⟩
  · apply h.laid.congr
    intro i hlo _
    exact (hbyte hlo).symm
  · rw [hbyte (by omega)]
    refine h.stop.imp_right ?_
    rintro ⟨he, hzero⟩
    exact ⟨he, (be32_congr (fun d _ => hbyte (by omega))).trans hzero⟩
  · intro i hlo hhi
    rw [hbyte (by omega)]
    exact h.clear i hlo hhi

theorem PadHolds.remove (h : PadHolds pBuf (before ++ t :: after) e)
    (hlow : Laid pBuf 32 before q) (hhigh : Laid pBuf q (t :: after) e) :
    Laid (removeToken 8192 pBuf e q) 32 (before ++ after) (e - t.size) ∧
    (∀ i, e - t.size ≤ i → i < 8192 → removeToken 8192 pBuf e q i = 0) ∧
    ((before ++ after).map Token.name).Nodup ∧
    padUsedLen 8192 pBuf - (spTokenSize + skipLen (tokenLenAt pBuf q)) = e - t.size := by
  obtain ⟨hlaid, hzero⟩ := removeToken_laid hlow hhigh
  refine ⟨hlaid, hzero, (names_of_middle h.nodup).2, ?_⟩
  cases hhigh with
  | cons hname hlen hdata hrest =>
    rw [h.padUsedLen_eq, tokenLenAt_of_be32 hlen]
    rfl

theorem updatePad_delete (h : PadHolds pBuf ts e) (id : TokenName) (bufLen : Int)
    {pBuf' : Nat → UInt8} (hupdate : updatePad 8192 pBuf id.chars none bufLen = some pBuf') :
    Represents pBuf' (storeUpdate (fun n => lookup n ts) id none) := by
  have hend := h.end_lt
  have hfind := h.padFind_eq id
  have hused := h.padUsedLen_eq
  unfold updatePad at hupdate
  simp only [hfind, hused] at hupdate
  split at hupdate
  · cases hupdate
  cases hlocate : locate id 32 ts with
  | none =>
    simp only [hlocate, some.injEq] at hupdate
    subst hupdate
    refine .inr ⟨ts, e, h.renewHeader, ?_⟩
    intro name
    have habsent := (lookup_eq_none_iff id ts).mpr ((locate_eq_none_iff id 32 ts).mp hlocate)
    simp only [storeUpdate]
    split
    next hname =>
      rw [hname, habsent]
    · rfl
  | some q =>
    obtain ⟨before, t, after, rfl, rfl, hbefore, hlow, hhigh⟩ :=
      h.laid.split hlocate
    obtain ⟨hlaid, hzero, hnodup, hrest⟩ := h.remove hlow hhigh
    rw [hused] at hrest
    have hbound := hlaid.le
    simp only [hlocate, hrest, some.injEq] at hupdate
    subst hupdate
    have hbyte {i : Nat} (hi : 32 ≤ i) :
        putAtEnd (removeToken 8192 pBuf e q) t.name.chars none bufLen
          (e - t.size) i = removeToken 8192 pBuf e q i :=
      blit_outside _ _ (.inr (by simp only [spHeaderSize]; omega))
    refine .inr ⟨before ++ after, e - t.size,
      ⟨hasMagic_spHead _, ?_, by omega, .inl ?_, ?_, hnodup⟩, ?_⟩
    · apply hlaid.congr
      intro i hlo _
      exact (hbyte hlo).symm
    · rw [hbyte (by omega)]
      exact hzero _ le_rfl (by omega)
    · intro i hlo hhi
      rw [hbyte (by omega)]
      exact hzero i (by omega) hhi
    · intro name
      exact (lookup_remove h.nodup name).symm

/-- Storing data under a name. A fresh token must not fill the pad to its last
byte. -/
theorem updatePad_set (h : PadHolds pBuf ts e) (t : Token)
    (data : Nat → UInt8) (hdata : slice data 0 t.data.length = t.data)
    (hroom : locate t.name 32 ts = none → e + t.size ≠ 8192) {pBuf' : Nat → UInt8}
    (hupdate : updatePad 8192 pBuf t.name.chars (some data) t.data.length = some pBuf') :
    Represents pBuf' (storeUpdate (fun n => lookup n ts) t.name (some t.data)) := by
  have hfind := h.padFind_eq t.name
  have hused := h.padUsedLen_eq
  have hmod := h.laid.mod_four (by decide)
  unfold updatePad at hupdate
  simp only [hfind, hused] at hupdate
  split at hupdate
  · cases hupdate
  rename_i hfits
  -- the check uses the unpadded length, the pad length is a multiple of 4
  have hpadded : e + t.size ≤ 8192 := by
    simp only [Token.size, skipLen_natCast, spTokenSize] at hfits ⊢
    omega
  cases hlocate : locate t.name 32 ts with
  | none =>
    have hfresh := (locate_eq_none_iff t.name 32 ts).mp hlocate
    have hfree := hroom hlocate
    simp only [hlocate, some.injEq] at hupdate
    subst hupdate
    refine .inr ⟨ts ++ [t], e + t.size, padHolds_append h.laid h.clear h.nodup
      t hfresh data hdata (by omega), ?_⟩
    intro name
    exact (lookup_append_token ts t hfresh name).symm
  | some q =>
    obtain ⟨before, u, after, rfl, hname, hbefore, hlow, hhigh⟩ :=
      h.laid.split hlocate
    have hlen : tokenLenAt pBuf q = u.data.length := by
      cases hhigh with
      | cons _ hlen _ _ => exact tokenLenAt_of_be32 hlen
    simp only [hlocate, hlen, Nat.cast_inj] at hupdate
    split at hupdate
    next hsame =>
      cases hupdate
      have hlength : (slice data 0 u.data.length).length = u.data.length :=
        slice_length _ _ _
      have hpad := padHolds_overwrite h hlow hhigh data hlength
      rw [← hname] at hbefore
      rw [← hsame]
      refine .inr ⟨_, e, hpad, ?_⟩
      intro name
      rw [lookup_overwrite hbefore, hname, hsame, hdata]
    · obtain ⟨hlaid, hzero, hnodup, hrest⟩ := h.remove hlow hhigh
      cases hupdate
      have hsize := u.size_bounds.1
      have hbound := hlaid.le
      have hfresh : ∀ v ∈ before ++ after, v.name ≠ t.name := by
        rw [← hname]
        exact (names_of_middle h.nodup).1
      refine .inr ⟨before ++ after ++ [t], e - u.size + t.size,
        padHolds_append hlaid ?_ hnodup t hfresh data hdata (by omega), ?_⟩
      · intro i hlo hhi
        exact hzero i (by omega) hhi
      · intro name
        exact (lookup_replace h.nodup hname name).symm

end EchoLife.Flash
