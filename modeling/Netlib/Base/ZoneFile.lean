import Netlib.Lib.Wire
import Netlib.Base.TimeZone

/-!
# Zone files

`readTimeZoneFile` and the constructor `TimeZone(const char*)` (`base/TimeZone.cc`), over any content
of the file.  The loader fills a `TimeZone::Data` section by section; a `std::logic_error` ends it
wherever it is, and the data read so far stay.  Indexing outside a vector and a negative length of an
array have no result.  Memory and stack are unbounded.
-/

namespace Netlib

open Wire

inductive Fail where
  /-- An exception that the loader catches, with its text. -/
  | logicError (what : String)
  /-- Behaviour that the language leaves undefined. -/
  | undefined
deriving DecidableEq

/-- `File`, open for reading, and the data that is filled. -/
abbrev ReadFile := Read Fail Data

/-- A negative `n` is the length of the local array. -/
def readBytes (n : Int) : ReadFile (List UInt8) := fun f ↦
  if n < 0 then .error .undefined f
  else if n.toNat ≤ f.rest.length then .ok (f.rest.take n.toNat) ⟨f.rest.drop n.toNat, f.data⟩
  else .error (.logicError "no enough data") ⟨[], f.data⟩

def readInt32 : ReadFile Int32 := fun f ↦
  match f.rest with
  | a :: b :: c :: d :: rest => .ok (ofBe32 a b c d) ⟨rest, f.data⟩
  | _ => .error (.logicError "bad int32_t data") ⟨[], f.data⟩

def readUint8 : ReadFile UInt8 := fun f ↦
  match f.rest with
  | x :: rest => .ok x ⟨rest, f.data⟩
  | [] => .error (.logicError "bad uint8_t data") ⟨[], f.data⟩

/-- `std::vector::reserve`, which rejects what a negative count is converted to. -/
def reserve (n : Int32) : ReadFile Unit :=
  if n.toInt < 0 then throw (.logicError "vector::reserve") else pure ()

def checkHead (head : List UInt8) : ReadFile Unit :=
  if head ≠ [84, 90, 105, 102] then throw (.logicError "bad head") else pure ()

/-- An entry of the type section. -/
structure ZoneType where
  gmtoff : Int32
  isdist : UInt8
  abbrind : UInt8
deriving DecidableEq

def ZoneType.toLocalTime (ty : ZoneType) : LocalTime :=
  ⟨ty.gmtoff.toInt, ty.isdist ≠ 0, ty.abbrind.toNat⟩

def readType : ReadFile ZoneType := do
  let gmtoff ← readInt32
  let isdist ← readUint8
  let abbrind ← readUint8
  return ⟨gmtoff, isdist, abbrind⟩

/-- Each type is stored as soon as it is read. -/
def readTypes : Nat → ReadFile Unit
  | 0 => pure ()
  | n + 1 => do
    let ty ← readType
    modify fun f ↦ { f with data.localtimes := f.data.localtimes ++ [ty.toLocalTime] }
    readTypes n

def pushTransitions : List (Int32 × UInt8) → ReadFile Unit
  | [] => pure ()
  | (gmt, localIndx) :: rest => do
    let f ← get
    match f.data.localtimes[localIndx.toNat]? with
    | none => throw .undefined
    | some lt =>
      let t : Transition := ⟨gmt.toInt, gmt.toInt + lt.gmtOffset, localIndx.toNat⟩
      set { f with data.transitions := f.data.transitions ++ [t] }
      pushTransitions rest

/-- What comes in front of the sections. -/
structure Header where
  version : List UInt8
  reserved : List UInt8
  isgmtcnt : Int32
  isstdcnt : Int32
  leapcnt : Int32
  timecnt : Int32
  typecnt : Int32
  charcnt : Int32
deriving DecidableEq

def readHeader : ReadFile Header := do
  let head ← readBytes 4
  checkHead head
  let version ← readBytes 1
  let reserved ← readBytes 15
  let isgmtcnt ← readInt32
  let isstdcnt ← readInt32
  let leapcnt ← readInt32
  let timecnt ← readInt32
  let typecnt ← readInt32
  let charcnt ← readInt32
  return ⟨version, reserved, isgmtcnt, isstdcnt, leapcnt, timecnt, typecnt, charcnt⟩

/-- The `try` block.  Only three of the counts are used. -/
def readSections : ReadFile Unit := do
  let header ← readHeader
  reserve header.timecnt
  let gmts ← times readInt32 header.timecnt.toInt.toNat
  let localtimes ← times readUint8 header.timecnt.toInt.toNat
  readTypes header.typecnt.toInt.toNat
  pushTransitions (gmts.zip localtimes)
  let abbrviation ← readBytes header.charcnt.toInt
  modify fun f ↦ { f with data.abbrviation := abbrviation }

/-- What the loader returns, what it leaves in the data and what it prints.  A file that cannot be
opened is `none`. -/
def readTimeZoneFile (zonefile : Option (List UInt8)) (data : Data) :
    Option (Bool × Data × List String) :=
  match zonefile with
  | none => some (true, data, [])
  | some bytes =>
    match readSections ⟨bytes, data⟩ with
    | .ok _ f => some (true, f.data, [])
    | .error (.logicError what) f => some (true, f.data, [what])
    | .error .undefined _ => none

structure TimeZone where
  data : Option Data
deriving DecidableEq

namespace TimeZone

def ofFile (zonefile : Option (List UInt8)) : Option TimeZone := do
  let (read, data, _) ← readTimeZoneFile zonefile Data.empty
  if read then return ⟨some data⟩
  return ⟨none⟩

def vaild (tz : TimeZone) : Bool := tz.data.isSome

/-- Both conversions assert that there are data. -/
def toLocalTime (c : Calendar) (tz : TimeZone) (secondsSinceEpoch : Int) : Option Tm :=
  tz.data.bind (Netlib.toLocalTime c · secondsSinceEpoch)

def fromLocalTime (c : Calendar) (tz : TimeZone) (localtime : Tm) : Option Int :=
  tz.data.bind (Netlib.fromLocalTime c · localtime)

end TimeZone

/-! ## 1. The format -/

/-- A zone description in the terms of the file. -/
structure Zone where
  version : UInt8
  reserved : List UInt8
  isgmtcnt : Int32
  isstdcnt : Int32
  leapcnt : Int32
  transitions : List (Int32 × UInt8)
  types : List ZoneType
  abbrviation : List UInt8
  reserved_length : reserved.length = 15
  transitions_length : transitions.length < 2 ^ 31
  types_length : types.length < 2 ^ 31
  abbrviation_length : abbrviation.length < 2 ^ 31
  /-- Each transition's type exists. -/
  indices : ∀ t ∈ transitions, t.2.toNat < types.length

def ZoneType.encode (ty : ZoneType) : List UInt8 := be32 ty.gmtoff ++ [ty.isdist, ty.abbrind]

/-- Magic, version and reserved bytes, and six counts. -/
def Header.encode (h : Header) : List UInt8 :=
  [84, 90, 105, 102] ++ h.version ++ h.reserved ++ be32 h.isgmtcnt ++ be32 h.isstdcnt ++
    be32 h.leapcnt ++ be32 h.timecnt ++ be32 h.typecnt ++ be32 h.charcnt

namespace Zone

def header (z : Zone) : Header :=
  ⟨[z.version], z.reserved, z.isgmtcnt, z.isstdcnt, z.leapcnt, .ofNat z.transitions.length,
    .ofNat z.types.length, .ofNat z.abbrviation.length⟩

/-- TZif, version 1: the header and then the sections. -/
def encode (z : Zone) : List UInt8 :=
  z.header.encode ++ (z.transitions.map Prod.fst).flatMap be32 ++ z.transitions.map Prod.snd ++
    z.types.flatMap ZoneType.encode ++ z.abbrviation

/-- The offset of the type with an index. -/
def offset (z : Zone) (i : UInt8) : Int := (z.types[i.toNat]?.map (·.gmtoff.toInt)).getD 0

/-- The description as data: a transition's local time is its UTC time plus its type's offset. -/
def toData (z : Zone) : Data where
  transitions := z.transitions.map fun t ↦ ⟨t.1.toInt, t.1.toInt + z.offset t.2, t.2.toNat⟩
  localtimes := z.types.map ZoneType.toLocalTime
  abbrviation := z.abbrviation

end Zone

/-! ## 2. The readers -/

theorem readInt32_codec : Codec readInt32 be32 fun _ ↦ True where
  decode x _ rest data := by
    obtain ⟨a, b, c, d, henc, hdec⟩ := exists_be32 x
    rw [henc, ← hdec]
    rfl
  encode f x f' h := by
    unfold readInt32 at h
    split at h
    · rename_i a b c d rest hrest
      cases h
      rw [be32_ofBe32, hrest]
      exact ⟨trivial, rfl, rfl⟩
    · cases h

theorem readUint8_codec : Codec readUint8 (fun x ↦ [x]) fun _ ↦ True where
  decode _ _ _ _ := rfl
  encode f x f' h := by
    unfold readUint8 at h
    split at h
    · rename_i x rest hrest
      cases h
      rw [hrest]
      exact ⟨trivial, rfl, rfl⟩
    · cases h

theorem readBytes_codec (n : Int) :
    Codec (readBytes n) id fun xs ↦ (xs.length : Int) = n where
  decode xs hlen rest data := by
    have htake : (xs ++ rest).take n.toNat = xs := by
      rw [← hlen, Int.toNat_natCast, List.take_left]
    have hdrop : (xs ++ rest).drop n.toNat = rest := by
      rw [← hlen, Int.toNat_natCast, List.drop_left]
    unfold readBytes
    rw [if_neg (by omega), if_pos (by simp only [id_eq, List.length_append]; omega)]
    simp only [id_eq, htake, hdrop]
  encode f xs f' h := by
    unfold readBytes at h
    split at h
    · cases h
    · rename_i hpos
      split at h
      · rename_i hle
        cases h
        refine ⟨?_, (List.take_append_drop _ _).symm, rfl⟩
        rw [List.length_take, Nat.min_eq_left hle]
        omega
      · cases h

theorem checkHead_ok {head : List UInt8} {f f' : Stream Data} (h : checkHead head f = .ok () f') :
    head = [84, 90, 105, 102] ∧ f = f' := by
  unfold checkHead at h
  split at h
  · cases h
  · rename_i hhead
    cases h
    exact ⟨not_not.mp hhead, rfl⟩

theorem reserve_ok {n : Int32} {f f' : Stream Data} (h : reserve n f = .ok () f') :
    0 ≤ n.toInt ∧ f = f' := by
  unfold reserve at h
  split at h
  · cases h
  · cases h
    exact ⟨by omega, rfl⟩

theorem readType_codec : Codec readType ZoneType.encode fun _ ↦ True where
  decode ty _ rest data := by
    have hoff := readInt32_codec.decode ty.gmtoff trivial ([ty.isdist, ty.abbrind] ++ rest) data
    show (readInt32 >>= _) _ = _
    unfold ZoneType.encode
    rw [List.append_assoc, bind_ok hoff]
    rfl
  encode f ty f' h := by
    obtain ⟨gmtoff, f₁, hoff, h⟩ := bind_eq_ok h
    obtain ⟨isdist, f₂, hdst, h⟩ := bind_eq_ok h
    obtain ⟨abbrind, f₃, habbr, h⟩ := bind_eq_ok h
    cases h
    obtain ⟨-, hr₁, hd₁⟩ := readInt32_codec.encode _ _ _ hoff
    obtain ⟨-, hr₂, hd₂⟩ := readUint8_codec.encode _ _ _ hdst
    obtain ⟨-, hr₃, hd₃⟩ := readUint8_codec.encode _ _ _ habbr
    refine ⟨trivial, ?_, ?_⟩
    · rw [hr₁, hr₂, hr₃, ZoneType.encode, List.append_assoc]
      rfl
    · rw [hd₃, hd₂, hd₁]

/-- Types appended to what is there. -/
def addTypes (data : Data) (types : List ZoneType) : Data :=
  { data with localtimes := data.localtimes ++ types.map ZoneType.toLocalTime }

theorem addTypes_cons (data : Data) (ty : ZoneType) (types : List ZoneType) :
    addTypes { data with localtimes := data.localtimes ++ [ty.toLocalTime] } types =
      addTypes data (ty :: types) := by
  simp only [addTypes, List.append_assoc, List.singleton_append, List.map_cons]

theorem readTypes_decode (types : List ZoneType) (rest : List UInt8) (data : Data) :
    readTypes types.length ⟨types.flatMap ZoneType.encode ++ rest, data⟩ =
      .ok () ⟨rest, addTypes data types⟩ := by
  induction types generalizing data with
  | nil =>
    unfold addTypes
    rw [List.map_nil, List.append_nil]
    rfl
  | cons ty types ih =>
    have hty := readType_codec.decode ty trivial (types.flatMap ZoneType.encode ++ rest) data
    rw [List.flatMap_cons, List.append_assoc, ← addTypes_cons, ← ih]
    show (readType >>= _) _ = _
    rw [bind_ok hty]
    rfl

theorem readTypes_encode {n : Nat} {f f' : Stream Data} (h : readTypes n f = .ok () f') :
    ∃ types : List ZoneType, types.length = n ∧
      f.rest = types.flatMap ZoneType.encode ++ f'.rest ∧ f'.data = addTypes f.data types := by
  induction n generalizing f with
  | zero =>
    cases h
    refine ⟨[], rfl, rfl, ?_⟩
    unfold addTypes
    rw [List.map_nil, List.append_nil]
  | succ n ih =>
    obtain ⟨ty, ⟨rest, data⟩, hty, h⟩ := bind_eq_ok h
    obtain ⟨-, hrest, hdata⟩ := readType_codec.encode _ _ _ hty
    obtain ⟨types, hlen, hrest', hdata'⟩ := ih h
    change rest = _ at hrest'
    change data = _ at hdata
    refine ⟨ty :: types, congrArg Nat.succ hlen, ?_, ?_⟩
    · rw [hrest, List.flatMap_cons, List.append_assoc, ← hrest']
    · rw [hdata', ← addTypes_cons, ← hdata]

/-- A transition with the local time that its type gives it. -/
def localTransition (localtimes : List LocalTime) (t : Int32 × UInt8) : Transition :=
  ⟨t.1.toInt, t.1.toInt + (localtimes[t.2.toNat]?.map (·.gmtOffset)).getD 0, t.2.toNat⟩

/-- Transitions appended to what is there. -/
def addTransitions (data : Data) (l : List (Int32 × UInt8)) : Data :=
  { data with transitions := data.transitions ++ l.map (localTransition data.localtimes) }

theorem addTransitions_nil (data : Data) : addTransitions data [] = data := by
  unfold addTransitions
  rw [List.map_nil, List.append_nil]

theorem addTransitions_cons (data : Data) (t : Int32 × UInt8) (l : List (Int32 × UInt8)) :
    addTransitions (addTransitions data [t]) l = addTransitions data (t :: l) := by
  simp only [addTransitions, List.append_assoc, List.map_cons, List.map_nil, List.singleton_append]

theorem pushTransitions_cons {t : Int32 × UInt8} {l : List (Int32 × UInt8)} {f : Stream Data}
    (h : t.2.toNat < f.data.localtimes.length) :
    pushTransitions (t :: l) f = pushTransitions l ⟨f.rest, addTransitions f.data [t]⟩ := by
  have hlt := List.getElem?_eq_getElem h
  have hget : (get : ReadFile (Stream Data)) f = .ok f f := rfl
  apply (bind_ok hget).trans
  simp only [addTransitions, localTransition, List.map_cons, List.map_nil, hlt]
  rfl

theorem pushTransitions_cons_outside {t : Int32 × UInt8} {l : List (Int32 × UInt8)}
    {f : Stream Data} (h : ¬ t.2.toNat < f.data.localtimes.length) :
    pushTransitions (t :: l) f = .error .undefined f := by
  have hlt := List.getElem?_eq_none (Nat.le_of_not_lt h)
  have hget : (get : ReadFile (Stream Data)) f = .ok f f := rfl
  apply (bind_ok hget).trans
  simp only [hlt]
  rfl

theorem pushTransitions_ok {l : List (Int32 × UInt8)} {f f' : Stream Data} :
    pushTransitions l f = .ok () f' ↔
      (∀ t ∈ l, t.2.toNat < f.data.localtimes.length) ∧
        f' = ⟨f.rest, addTransitions f.data l⟩ := by
  induction l generalizing f with
  | nil =>
    rw [addTransitions_nil]
    constructor
    · intro h
      cases h
      exact ⟨fun t ht ↦ absurd ht List.not_mem_nil, rfl⟩
    · rintro ⟨-, rfl⟩
      rfl
  | cons t l ih =>
    rw [List.forall_mem_cons]
    by_cases ht : t.2.toNat < f.data.localtimes.length
    · rw [pushTransitions_cons ht, ih, addTransitions_cons]
      exact and_congr_left fun _ ↦ (and_iff_right ht).symm
    · rw [pushTransitions_cons_outside ht]
      constructor
      · intro h
        cases h
      · intro h
        exact absurd h.1.1 ht

theorem times_readUint8_codec (n : Nat) :
    Codec (times readUint8 n) id fun as : List UInt8 ↦ as.length = n where
  decode as hlen rest data := by
    have h := (readUint8_codec.times n).decode as ⟨hlen, fun _ _ ↦ trivial⟩ rest data
    rw [List.flatMap_singleton'] at h
    exact h
  encode f as f' h := by
    have h := (readUint8_codec.times n).encode f as f' h
    rw [List.flatMap_singleton'] at h
    exact ⟨h.1.1, h.2⟩

theorem toNat_ofNat {n : Nat} (h : n < 2 ^ 31) : (Int32.ofNat n).toInt.toNat = n := by
  rw [Int32.toInt_ofNat_of_lt h, Int.toNat_natCast]

theorem ofNat_toNat {x : Int32} (h : 0 ≤ x.toInt) : Int32.ofNat x.toInt.toNat = x := by
  rw [← Int32.ofInt_eq_ofNat, Int.toNat_of_nonneg h, Int32.ofInt_toInt]

theorem toNat_lt (x : Int32) : x.toInt.toNat < 2 ^ 31 := by
  have h := x.toInt_lt
  omega

/-! ## 3. The loader and the format -/

/-- The data of a description, put together in the loader's order. -/
theorem Zone.toData_eq (z : Zone) :
    { addTransitions (addTypes Data.empty z.types) z.transitions with
      abbrviation := z.abbrviation } = z.toData := by
  have hlocal : localTransition (z.types.map ZoneType.toLocalTime) =
      fun t ↦ ⟨t.1.toInt, t.1.toInt + z.offset t.2, t.2.toNat⟩ := by
    funext t
    unfold localTransition offset
    rw [List.getElem?_map, Option.map_map]
    rfl
  simp only [addTransitions, addTypes, Data.empty, toData, List.nil_append, hlocal]

theorem readHeader_codec :
    Codec readHeader Header.encode fun h ↦ h.version.length = 1 ∧ h.reserved.length = 15 where
  decode h hlen rest data := by
    have hversion : (h.version.length : Int) = 1 := by rw [hlen.1]; rfl
    have hreserved : (h.reserved.length : Int) = 15 := by rw [hlen.2]; rfl
    unfold readHeader Header.encode
    simp only [List.append_assoc]
    apply (bind_ok ((readBytes_codec 4).decode [84, 90, 105, 102] rfl _ _)).trans
    apply (bind_ok (rfl : checkHead [84, 90, 105, 102] _ = .ok () _)).trans
    apply (bind_ok ((readBytes_codec 1).decode h.version hversion _ _)).trans
    apply (bind_ok ((readBytes_codec 15).decode h.reserved hreserved _ _)).trans
    apply (bind_ok (readInt32_codec.decode h.isgmtcnt trivial _ _)).trans
    apply (bind_ok (readInt32_codec.decode h.isstdcnt trivial _ _)).trans
    apply (bind_ok (readInt32_codec.decode h.leapcnt trivial _ _)).trans
    apply (bind_ok (readInt32_codec.decode h.timecnt trivial _ _)).trans
    apply (bind_ok (readInt32_codec.decode h.typecnt trivial _ _)).trans
    apply (bind_ok (readInt32_codec.decode h.charcnt trivial _ _)).trans
    rfl
  encode f h f' hok := by
    obtain ⟨head, f₁, hhead, hok⟩ := bind_eq_ok hok
    obtain ⟨⟨⟩, f₂, hcheck, hok⟩ := bind_eq_ok hok
    obtain ⟨version, f₃, hversion, hok⟩ := bind_eq_ok hok
    obtain ⟨reserved, f₄, hreserved, hok⟩ := bind_eq_ok hok
    obtain ⟨isgmtcnt, f₅, hisgmt, hok⟩ := bind_eq_ok hok
    obtain ⟨isstdcnt, f₆, hisstd, hok⟩ := bind_eq_ok hok
    obtain ⟨leapcnt, f₇, hleap, hok⟩ := bind_eq_ok hok
    obtain ⟨timecnt, f₈, htime, hok⟩ := bind_eq_ok hok
    obtain ⟨typecnt, f₉, htype, hok⟩ := bind_eq_ok hok
    obtain ⟨charcnt, f₁₀, hchar, hok⟩ := bind_eq_ok hok
    cases hok
    obtain ⟨rfl, rfl⟩ := checkHead_ok hcheck
    obtain ⟨-, hr₁, hd₁⟩ := (readBytes_codec 4).encode _ _ _ hhead
    obtain ⟨hlen₁, hr₃, hd₃⟩ := (readBytes_codec 1).encode _ _ _ hversion
    obtain ⟨hlen₂, hr₄, hd₄⟩ := (readBytes_codec 15).encode _ _ _ hreserved
    obtain ⟨-, hr₅, hd₅⟩ := readInt32_codec.encode _ _ _ hisgmt
    obtain ⟨-, hr₆, hd₆⟩ := readInt32_codec.encode _ _ _ hisstd
    obtain ⟨-, hr₇, hd₇⟩ := readInt32_codec.encode _ _ _ hleap
    obtain ⟨-, hr₈, hd₈⟩ := readInt32_codec.encode _ _ _ htime
    obtain ⟨-, hr₉, hd₉⟩ := readInt32_codec.encode _ _ _ htype
    obtain ⟨-, hr₁₀, hd₁₀⟩ := readInt32_codec.encode _ _ _ hchar
    refine ⟨⟨by exact_mod_cast hlen₁, by exact_mod_cast hlen₂⟩, ?_, ?_⟩
    · simp only [Header.encode, List.append_assoc]
      rw [hr₁, hr₃, hr₄, hr₅, hr₆, hr₇, hr₈, hr₉, hr₁₀]
      rfl
    · rw [hd₁₀, hd₉, hd₈, hd₇, hd₆, hd₅, hd₄, hd₃, hd₁]

/-- **The loader decodes every description.** -/
theorem readSections_encode (z : Zone) (rest : List UInt8) :
    readSections ⟨z.encode ++ rest, Data.empty⟩ = .ok () ⟨rest, z.toData⟩ := by
  have htimes : z.header.timecnt.toInt.toNat = z.transitions.length :=
    toNat_ofNat z.transitions_length
  have htypes : z.header.typecnt.toInt.toNat = z.types.length := toNat_ofNat z.types_length
  have hchars : z.header.charcnt.toInt = z.abbrviation.length :=
    Int32.toInt_ofNat_of_lt z.abbrviation_length
  have hreserve (f : Stream Data) : reserve z.header.timecnt f = .ok () f := by
    have hcnt : z.header.timecnt.toInt = z.transitions.length :=
      Int32.toInt_ofNat_of_lt z.transitions_length
    unfold reserve
    rw [hcnt, if_neg (by omega)]
    rfl
  have hindices (t : Int32 × UInt8) (ht : t ∈ z.transitions) :
      t.2.toNat < (addTypes Data.empty z.types).localtimes.length := by
    simp only [addTypes, Data.empty, List.nil_append, List.length_map]
    exact z.indices t ht
  have hzip : (z.transitions.map Prod.fst).zip (z.transitions.map Prod.snd) = z.transitions := by
    rw [← List.unzip_fst, ← List.unzip_snd, List.zip_unzip]
  unfold readSections Zone.encode
  simp only [List.append_assoc]
  apply (bind_ok (readHeader_codec.decode z.header ⟨rfl, z.reserved_length⟩ _ _)).trans
  apply (bind_ok (hreserve _)).trans
  rw [htimes, htypes, hchars]
  apply (bind_ok ((readInt32_codec.times _).decode (z.transitions.map Prod.fst)
    ⟨List.length_map _, fun _ _ ↦ trivial⟩ _ _)).trans
  apply (bind_ok ((times_readUint8_codec _).decode (z.transitions.map Prod.snd)
    (List.length_map _) _ _)).trans
  apply (bind_ok (readTypes_decode z.types _ _)).trans
  rw [hzip]
  apply (bind_ok (pushTransitions_ok.mpr ⟨hindices, rfl⟩)).trans
  apply (bind_ok ((readBytes_codec _).decode z.abbrviation rfl rest _)).trans
  rw [← z.toData_eq]
  rfl

/-- Sections of the lengths that the header gives make a description with that header. -/
theorem exists_zone {header : Header} {transitions : List (Int32 × UInt8)} {types : List ZoneType}
    {abbrviation : List UInt8} (hversion : header.version.length = 1)
    (hreserved : header.reserved.length = 15) (htime : 0 ≤ header.timecnt.toInt)
    (htype : 0 ≤ header.typecnt.toInt) (hchar : 0 ≤ header.charcnt.toInt)
    (htlen : transitions.length = header.timecnt.toInt.toNat)
    (hylen : types.length = header.typecnt.toInt.toNat)
    (hclen : abbrviation.length = header.charcnt.toInt.toNat)
    (hidx : ∀ t ∈ transitions, t.2.toNat < types.length) :
    ∃ z : Zone, z.header = header ∧ z.transitions = transitions ∧ z.types = types ∧
      z.abbrviation = abbrviation := by
  obtain ⟨version, hv⟩ := List.length_eq_one_iff.mp hversion
  refine ⟨
    { version := version
      reserved := header.reserved
      isgmtcnt := header.isgmtcnt
      isstdcnt := header.isstdcnt
      leapcnt := header.leapcnt
      transitions := transitions
      types := types
      abbrviation := abbrviation
      reserved_length := hreserved
      transitions_length := htlen ▸ toNat_lt _
      types_length := hylen ▸ toNat_lt _
      abbrviation_length := hclen ▸ toNat_lt _
      indices := hidx }, ?_, rfl, rfl, rfl⟩
  unfold Zone.header
  rw [← hv]
  show Header.mk header.version header.reserved header.isgmtcnt header.isstdcnt header.leapcnt
    (.ofNat transitions.length) (.ofNat types.length) (.ofNat abbrviation.length) = header
  rw [htlen, hylen, hclen, ofNat_toNat htime, ofNat_toNat htype, ofNat_toNat hchar]

/-- **What the loader reads to its end is a description**, if it has a type. -/
theorem readSections_ok {bytes : List UInt8} {f : Stream Data}
    (h : readSections ⟨bytes, Data.empty⟩ = .ok () f) (htypes : f.data.localtimes ≠ []) :
    ∃ z : Zone, bytes = z.encode ++ f.rest ∧ f.data = z.toData := by
  obtain ⟨header, ⟨r₁, d₁⟩, hheader, h⟩ := bind_eq_ok h
  obtain ⟨⟨⟩, f₂, hres, h⟩ := bind_eq_ok h
  obtain ⟨gmts, ⟨r₃, d₃⟩, hgmts, h⟩ := bind_eq_ok h
  obtain ⟨idxs, ⟨r₄, d₄⟩, hidxs, h⟩ := bind_eq_ok h
  obtain ⟨⟨⟩, ⟨r₅, d₅⟩, htys, h⟩ := bind_eq_ok h
  obtain ⟨⟨⟩, f₆, htrans, h⟩ := bind_eq_ok h
  obtain ⟨abbrviation, ⟨r₇, d₇⟩, habbr, h⟩ := bind_eq_ok h
  cases h
  -- what each section read, as bytes and as data
  obtain ⟨⟨hversion, hreserved⟩, hr₁, hd₁⟩ := readHeader_codec.encode _ _ _ hheader
  obtain ⟨htime, rfl⟩ := reserve_ok hres
  obtain ⟨⟨hglen, -⟩, hr₃, hd₃⟩ := (readInt32_codec.times _).encode _ _ _ hgmts
  obtain ⟨hilen, hr₄, hd₄⟩ := (times_readUint8_codec _).encode _ _ _ hidxs
  obtain ⟨types, htlen, hr₅, hd₅⟩ := readTypes_encode htys
  obtain ⟨hidx, rfl⟩ := pushTransitions_ok.mp htrans
  obtain ⟨hclen, hr₇, hd₇⟩ := (readBytes_codec _).encode _ _ _ habbr
  change bytes = _ at hr₁
  change d₁ = Data.empty at hd₁
  change r₁ = _ at hr₃
  change d₃ = d₁ at hd₃
  change r₃ = _ at hr₄
  change d₄ = d₃ at hd₄
  change r₄ = _ ++ r₅ at hr₅
  change d₅ = addTypes d₄ types at hd₅
  change r₅ = abbrviation ++ r₇ at hr₇
  change d₇ = addTransitions d₅ (gmts.zip idxs) at hd₇
  have hdata : d₅ = addTypes Data.empty types := by rw [hd₅, hd₄, hd₃, hd₁]
  rw [hd₇, hdata] at htypes ⊢
  have hne : types ≠ [] := by
    intro hnil
    rw [hnil] at htypes
    exact htypes rfl
  have htypecnt : 0 ≤ header.typecnt.toInt := by
    have hpos := List.length_pos_of_ne_nil hne
    omega
  have hzlen : (gmts.zip idxs).length = header.timecnt.toInt.toNat := by
    rw [List.length_zip]
    omega
  have hzidx : ∀ t ∈ gmts.zip idxs, t.2.toNat < types.length := by
    intro t ht
    have hlt := hidx t ht
    change t.2.toNat < d₅.localtimes.length at hlt
    rw [hdata] at hlt
    simpa [addTypes, Data.empty] using hlt
  obtain ⟨z, hz, htr, hty, hab⟩ := exists_zone hversion hreserved htime htypecnt (by omega) hzlen
    htlen (by omega : abbrviation.length = header.charcnt.toInt.toNat) hzidx
  refine ⟨z, ?_, ?_⟩
  · have hfst : (gmts.zip idxs).map Prod.fst = gmts := List.map_fst_zip (by omega)
    have hsnd : (gmts.zip idxs).map Prod.snd = idxs := List.map_snd_zip (by omega)
    rw [hr₁, hr₃, hr₄, hr₅, hr₇, Zone.encode, hz, htr, hty, hab, hfst, hsnd]
    simp only [List.append_assoc]
    rfl
  · rw [← z.toData_eq, htr, hty, hab]

theorem readTimeZoneFile_ok {bytes : List UInt8} {data : Data} {f : Stream Data}
    (h : readSections ⟨bytes, data⟩ = .ok () f) :
    readTimeZoneFile (some bytes) data = some (true, f.data, []) := by
  unfold readTimeZoneFile
  simp only [h]

/-- Whatever the loader met, it returns `true`. -/
theorem readTimeZoneFile_true {zonefile : Option (List UInt8)} {data data' : Data} {read : Bool}
    {err : List String} (h : readTimeZoneFile zonefile data = some (read, data', err)) :
    read = true := by
  unfold readTimeZoneFile at h
  split at h
  · cases h
    rfl
  · split at h
    · cases h
      rfl
    · cases h
      rfl
    · cases h

/-- A transition in the data is the one of the description. -/
def IsTransition (z : Zone) (t : Int32 × UInt8) (tr : Transition) : Prop :=
  tr.gmttime = t.1.toInt ∧ tr.localtimeIdx = t.2.toNat ∧
    ∃ ty, z.types[t.2.toNat]? = some ty ∧ tr.localtime = t.1.toInt + ty.gmtoff.toInt

/-- **Decoding TZif.**  The loader turns the encoding of a description, whatever follows it, into
exactly that description. -/
theorem readTimeZoneFile_encode (z : Zone) (rest : List UInt8) :
    ∃ data, readTimeZoneFile (some (z.encode ++ rest)) Data.empty = some (true, data, []) ∧
      List.Forall₂ (IsTransition z) z.transitions data.transitions ∧
      data.localtimes = z.types.map (fun ty ↦ ⟨ty.gmtoff.toInt, ty.isdist ≠ 0, ty.abbrind.toNat⟩) ∧
      data.abbrviation = z.abbrviation := by
  refine ⟨z.toData, ?_, ?_, rfl, rfl⟩
  · exact readTimeZoneFile_ok (readSections_encode z rest)
  · unfold Zone.toData
    rw [List.forall₂_map_right_iff, List.forall₂_same]
    intro t ht
    have hlt := List.getElem?_eq_getElem (z.indices t ht)
    refine ⟨rfl, rfl, _, hlt, ?_⟩
    simp only [Zone.offset, hlt]
    rfl

/-! ## 4. Validity -/

/-- Every section that the loader reads was there. -/
def Loaded (zonefile : Option (List UInt8)) : Prop :=
  ∃ bytes f, zonefile = some bytes ∧ readSections ⟨bytes, Data.empty⟩ = .ok () f

/-- The constructor gives a zone that is valid only when it is loaded, and then every index in it
leads somewhere and both conversions have results. -/
def LoadsSafely (c : Calendar) (zonefile : Option (List UInt8)) : Prop :=
  ∃ tz, TimeZone.ofFile zonefile = some tz ∧ (tz.vaild = true →
    Loaded zonefile ∧ (∃ data, tz.data = some data ∧ WellIndexed data) ∧
    (∀ t, ∃ tm, tz.toLocalTime c t = some tm ∧ tm.zone.isSome = true) ∧
    ∀ tm, ∃ t, tz.fromLocalTime c tm = some t)

/-- A description with a type, all of whose abbreviations exist, and anything behind it. -/
def WellFormed (zonefile : Option (List UInt8)) : Prop :=
  ∃ (z : Zone) (rest : List UInt8), zonefile = some (z.encode ++ rest) ∧ z.types ≠ [] ∧
    ∀ ty ∈ z.types, ty.abbrind.toNat < z.abbrviation.length

theorem wellIndexed_toData {z : Zone} :
    WellIndexed z.toData ↔
      z.types ≠ [] ∧ ∀ ty ∈ z.types, ty.abbrind.toNat < z.abbrviation.length := by
  constructor
  · intro h
    refine ⟨fun hnil ↦ h.types ?_, fun ty hty ↦ ?_⟩
    · unfold Zone.toData
      rw [hnil]
      rfl
    · exact h.abbrs ty.toLocalTime (List.mem_map_of_mem hty)
  · rintro ⟨htypes, habbrs⟩
    refine ⟨?_, ?_, ?_⟩
    · unfold Zone.toData
      simpa using htypes
    · intro t ht
      obtain ⟨t', ht', rfl⟩ := List.mem_map.mp ht
      unfold Zone.toData
      rw [List.length_map]
      exact z.indices t' ht'
    · intro lt hlt
      obtain ⟨ty, hty, rfl⟩ := List.mem_map.mp hlt
      exact habbrs ty hty

namespace TimeZone

/-- The zone keeps the data, and so it is valid. -/
theorem exists_data {zonefile : Option (List UInt8)} {tz : TimeZone}
    (h : ofFile zonefile = some tz) : ∃ data, tz = ⟨some data⟩ := by
  unfold ofFile at h
  obtain ⟨⟨read, data, err⟩, hread, h⟩ := Option.bind_eq_some_iff.mp h
  rw [readTimeZoneFile_true hread] at h
  cases h
  exact ⟨data, rfl⟩

theorem ofFile_ok {bytes : List UInt8} {f : Stream Data}
    (h : readSections ⟨bytes, Data.empty⟩ = .ok () f) :
    ofFile (some bytes) = some ⟨some f.data⟩ := by
  unfold ofFile
  rw [readTimeZoneFile_ok h]
  rfl

end TimeZone

/-- **A zone is valid only if it is loaded, exactly on the files that hold a whole description.**  On
every other file the loader's `true` keeps what was read so far, or the loader itself leaves the
vectors. -/
theorem loadsSafely_iff (c : Calendar) (zonefile : Option (List UInt8)) :
    LoadsSafely c zonefile ↔ WellFormed zonefile := by
  constructor
  · rintro ⟨tz, htz, hvalid⟩
    obtain ⟨data, rfl⟩ := TimeZone.exists_data htz
    obtain ⟨⟨bytes, f, rfl, hf⟩, ⟨data', hdata', hidx⟩, -⟩ := hvalid rfl
    rw [TimeZone.ofFile_ok hf] at htz
    cases htz
    cases hdata'
    obtain ⟨z, hbytes, hz⟩ := readSections_ok hf hidx.types
    rw [hz, wellIndexed_toData] at hidx
    exact ⟨z, f.rest, congrArg some hbytes, hidx⟩
  · rintro ⟨z, rest, rfl, hz⟩
    have hread := readSections_encode z rest
    have hidx := wellIndexed_toData.mpr hz
    refine ⟨_, TimeZone.ofFile_ok hread, fun _ ↦ ⟨⟨_, _, rfl, hread⟩, ⟨_, rfl, hidx⟩, ?_, ?_⟩⟩
    · intro t
      exact hidx.toLocalTime c t
    · intro tm
      exact hidx.fromLocalTime c tm

/-- A file that does not exist gives a valid zone without a type. -/
theorem missing_file_valid : ¬ ∀ c zonefile, LoadsSafely c zonefile := by
  intro h
  obtain ⟨tz, htz, hvalid⟩ := h gregorian none
  cases htz
  obtain ⟨⟨bytes, f, hbytes, -⟩, -⟩ := hvalid rfl
  cases hbytes

end Netlib
