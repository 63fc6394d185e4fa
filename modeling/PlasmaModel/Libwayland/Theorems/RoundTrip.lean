import PlasmaModel.Libwayland.Demarshal
import PlasmaModel.Libwayland.Theorems.Sent

-- What is read from the wire of what has been written to it.
namespace Libwayland

variable {w : UInt32} {rest data bytes : List Byte} {memory : ℕ → Byte} {p : ℕ}

@[simp]
theorem readWord_word : readWord (word w ++ rest) = w := by
  refine UInt32.toNat_inj.mp ?_
  have hlt := w.toNat_lt
  simp only [readWord, word, List.cons_append, List.nil_append, List.getD_cons_zero, List.getD_cons_succ,
    UInt8.toNat_ofNat', UInt32.toNat_ofNat']
  omega

@[simp]
theorem drop_word : (word w ++ rest).drop 4 = rest :=
  rfl

theorem getElem_mask {i : ℕ} (hi : i < 32) : (65535#32)[i] = decide (i < 16) := by
  decide +revert

theorem getLsbD_mask (i : ℕ) : (65535 : BitVec 32).getLsbD (i + 16) = false := by
  by_cases hi : i + 16 < 32
  case pos =>
    rw [BitVec.getLsbD_eq_getElem hi]
    exact (getElem_mask hi).trans (decide_eq_false (Nat.not_lt.mpr (Nat.le_add_left 16 i)))
  case neg => exact BitVec.getLsbD_of_ge _ _ (Nat.le_of_not_lt hi)

-- The size and the opcode are in the upper and in the lower half of the second word.
theorem header_opcode (size opcode : UInt32) :
    (size <<< 16 ||| opcode &&& 0x0000ffff) &&& 0x0000ffff = opcode &&& 0x0000ffff := by
  refine UInt32.toBitVec_inj.mp ?_
  ext i hi
  simp [getElem_mask hi]
  grind

theorem header_size (size opcode : UInt32) :
    (size <<< 16 ||| opcode &&& 0x0000ffff) >>> 16 = size &&& 0x0000ffff := by
  refine UInt32.toBitVec_inj.mp ?_
  ext i hi
  have := getLsbD_mask i
  simp [getElem_mask hi]
  grind

theorem toNat_mask (w : UInt32) : (w &&& 0x0000ffff).toNat = w.toNat % 2 ^ 16 := by
  rw [UInt32.toNat_and]
  exact Nat.and_two_pow_sub_one_eq_mod _ 16

-- What may be NULL.
def ArgumentDetails.accepts (details : ArgumentDetails) : Argument → Bool
  | .string none | .object none => details.nullable
  | .newId none | .array none => false
  | _ => true

def Argument.fds : Argument → List Fd
  | fd h => [h]
  | _ => []

def Argument.newIds : Argument → List ObjectId
  | newId (some id) => [id]
  | _ => []

-- 0 is not the id of an object.
def WlMap.reserveFresh (map : WlMap) (id : ObjectId) : Option WlMap :=
  if id = 0 then none else map.reserveNew id

def WlMap.reserveAll (map : WlMap) (ids : List ObjectId) : Option WlMap :=
  ids.foldlM WlMap.reserveFresh map

namespace Reader

variable {r r' : Reader} {details : ArgumentDetails} {arg : Argument} {fds : List Fd} {objects : WlMap}

theorem skip_word (h : r.rest = word w ++ rest) : r.skip 4 = { r with rest } := by
  rw [skip, h, drop_word]

variable {padding : List Byte}

theorem demarshalArray_encode (hf : data.length < 2 ^ 32) (hp : (data ++ padding).length = 4 * dataWords data)
    (h : r.rest = word (UInt32.ofNat data.length) ++ (data ++ padding ++ rest)) :
    r.demarshalArray = ({ r with rest }, some (.array (some data))) := by
  have hlength : (UInt32.ofNat data.length).toNat = data.length := UInt32.toNat_ofNat_of_lt' hf
  rw [demarshalArray, skip_word h, h, readWord_word, hlength, divRoundup_eq hf]
  simp only [skip]
  rw [if_neg, List.drop_left' hp, List.append_assoc, List.take_left]
  rw [List.length_append, hp]
  omega

theorem readString_append {s : CString} : (readString (s.bytes ++ [0] ++ rest)) = s := by
  have hbytes : (s.bytes ++ [0] ++ rest).takeWhile (· ≠ 0) = s.bytes := by
    rw [List.append_assoc, List.takeWhile_append_of_pos]
    · simp
    · intro b hb
      simpa using fun h : b = 0 => s.nonzero (h ▸ hb)
  simp only [readString, hbytes]

theorem demarshalString_encode {s : CString} (nullable : Bool) (hf : (s.bytes ++ [0]).length < 2 ^ 32)
    (hp : (s.bytes ++ [0] ++ padding).length = 4 * dataWords (s.bytes ++ [0]))
    (h : r.rest = word (UInt32.ofNat (s.bytes ++ [0]).length) ++ (s.bytes ++ [0] ++ padding ++ rest)) :
    r.demarshalString nullable = ({ r with rest }, some (.string (some s))) := by
  have hlength : (UInt32.ofNat (s.bytes ++ [0]).length).toNat = (s.bytes ++ [0]).length := UInt32.toNat_ofNat_of_lt' hf
  have hpos : ¬(s.bytes ++ [0]).length = 0 := by simp
  have hlast : (s.bytes ++ [0]).length - 1 = s.bytes.length := by simp
  have hread : readString (s.bytes ++ [0] ++ padding ++ rest) = s := by
    rw [List.append_assoc, readString_append]
  rw [demarshalString, skip_word h, h, readWord_word, hlength]
  dsimp only
  rw [if_neg hpos, divRoundup_eq hf, hlast, hread, if_neg, if_neg, if_neg (not_not.mpr rfl)]
  · simp only [skip, List.drop_left' hp]
  · simp
  · rw [List.length_append, hp]
    omega

theorem demarshalFd_eq {fd : Fd} (hv : r.fdsIn.Valid) (h : r.fdsIn.contents = fd :: fds) :
    ∃ fdsIn, r.demarshalFd = ({ r with fdsIn }, some (.fd fd)) ∧ fdsIn.Valid ∧ fdsIn.contents = fds := by
  have hcount : r.fdsIn.count = fds.length + 1 := by
    rw [← hv.length_contents, h, List.length_cons]
  have hle : 1 ≤ r.fdsIn.count := by omega
  have hne : r.fdsIn.tail ≠ r.fdsIn.head := by
    rw [RingBuffer.count] at hle
    omega
  obtain ⟨hvalid, hcontents⟩ := hv.consume hle
  refine ⟨_, ?_, hvalid, by rw [hcontents, h, List.drop_one, List.tail_cons]⟩
  rw [demarshalFd, if_neg hne, hv.copy hle, h]
  rfl

theorem length_padded (data : List Byte) : (data ++
    leftover memory p (4 * dataWords data - data.length)).length = 4 * dataWords data := by
  have := length_le_dataWords data
  rw [List.length_append, length_leftover]
  omega

-- An argument is read as it was written.
theorem demarshalArg_encode (ht : arg.type = details.type) (ha : details.accepts arg = true) (hf : arg.Fits)
    (hz : arg ≠ .object (some 0)) (hr : r.rest = arg.encode memory p ++ rest) (hv : r.fdsIn.Valid)
    (hfds : r.fdsIn.contents = arg.fds ++ fds) (hids : r.objects.reserveAll arg.newIds = some objects) :
    ∃ fdsIn, r.demarshalArg details = ({ rest, fdsIn, objects }, some arg) ∧ fdsIn.Valid ∧ fdsIn.contents = fds := by
  obtain ⟨type, nullable⟩ := details
  cases ht
  have hnonempty : arg.type ≠ .fd → r.rest ≠ [] := by
    intro hfd hnil
    have hlength := congrArg List.length (hnil.symm.trans hr)
    rw [List.length_append, length_encodeArg, Argument.words] at hlength
    split at hlength
    case h_1 => simp at hlength; omega
    case h_2 => simp [hfd] at hlength; omega
  rw [demarshalArg, if_neg fun hn => hnonempty hn.1 hn.2]
  cases arg with
  | int i =>
    have hw : r.rest = word i.toUInt32 ++ rest := hr
    cases Option.some.inj hids
    refine ⟨r.fdsIn, ?_, hv, hfds⟩
    simp only [skip_word hw, hw, readWord_word, Int32.toInt32_toUInt32]
  | uint u =>
    have hw : r.rest = word u ++ rest := hr
    cases Option.some.inj hids
    refine ⟨r.fdsIn, ?_, hv, hfds⟩
    simp only [skip_word hw, hw, readWord_word]
  | fixed f =>
    have hw : r.rest = word f.toUInt32 ++ rest := hr
    cases Option.some.inj hids
    refine ⟨r.fdsIn, ?_, hv, hfds⟩
    simp only [skip_word hw, hw, readWord_word, Int32.toInt32_toUInt32]
  | string s =>
    cases Option.some.inj hids
    cases s with
    | none =>
      have hw : r.rest = word 0 ++ rest := hr
      have hnullable : nullable = true := ha
      refine ⟨r.fdsIn, ?_, hv, hfds⟩
      simp only [demarshalString, skip_word hw, hw, readWord_word, hnullable]
      rfl
    | some s =>
      have hw : r.rest = word (UInt32.ofNat (s.bytes ++ [0]).length) ++ ((s.bytes ++ [0]) ++
          leftover memory (4 * (p + 1) + (s.bytes ++ [0]).length)
            (4 * dataWords (s.bytes ++ [0]) - (s.bytes ++ [0]).length) ++ rest) := by
        rw [hr, Argument.encode]
        simp only [Argument.data?, List.append_assoc]
      exact ⟨r.fdsIn, demarshalString_encode nullable (hf _ rfl) (length_padded _) hw, hv, hfds⟩
  | object o =>
    have hw : r.rest = word (o.getD 0) ++ rest := hr
    cases Option.some.inj hids
    refine ⟨r.fdsIn, ?_, hv, hfds⟩
    simp only [demarshalObject, skip_word hw, hw, readWord_word]
    cases o with
    | none =>
      have hnullable : nullable = true := ha
      rw [Option.getD_none, if_pos rfl, hnullable]
      rfl
    | some id =>
      have hid : id ≠ 0 := fun he => hz (he ▸ rfl)
      rw [Option.getD_some, if_neg hid]
  | newId o =>
    cases o with
    | none => cases ha
    | some id =>
      have hw : r.rest = word id ++ rest := hr
      obtain ⟨objects', hid, he⟩ := Option.bind_eq_some_iff.mp hids
      cases Option.some.inj he
      rw [WlMap.reserveFresh] at hid
      split at hid
      case isTrue => cases hid
      case isFalse hne =>
        refine ⟨r.fdsIn, ?_, hv, hfds⟩
        simp only [demarshalNewId, skip_word hw, hw, readWord_word, if_neg hne, hid]
  | array a =>
    cases Option.some.inj hids
    cases a with
    | none => cases ha
    | some a =>
      have hw : r.rest = word (UInt32.ofNat a.length) ++ (a ++
          leftover memory (4 * (p + 1) + a.length) (4 * dataWords a - a.length) ++ rest) := by
        rw [hr, Argument.encode]
        simp only [Argument.data?, List.append_assoc]
      exact ⟨r.fdsIn, demarshalArray_encode (hf _ rfl) (length_padded _) hw, hv, hfds⟩
  | fd fd =>
    have hw : r.rest = rest := hr
    cases Option.some.inj hids
    obtain ⟨fdsIn, hread, hvalid, hcontents⟩ := demarshalFd_eq hv hfds
    exact ⟨fdsIn, hread.trans (by rw [hw]), hvalid, hcontents⟩

theorem demarshalArgs_encode {details : List ArgumentDetails} {args : List Argument}
    (ht : args.map Argument.type = details.map ArgumentDetails.type)
    (ha : ∀ entry ∈ details.zip args, entry.1.accepts entry.2 = true) (hf : ∀ arg ∈ args, arg.Fits)
    (hz : .object (some 0) ∉ args) (hr : r.rest = encodeArgs memory p args) (hv : r.fdsIn.Valid)
    (hfds : r.fdsIn.contents = args.flatMap Argument.fds ++ fds)
    (hids : r.objects.reserveAll (args.flatMap Argument.newIds) = some objects) :
    ∃ fdsIn, r.demarshalArgs details = ({ rest := [], fdsIn, objects }, some args) ∧ fdsIn.Valid ∧
      fdsIn.contents = fds := by
  induction args generalizing r details p
  case nil =>
    cases List.map_eq_nil_iff.mp ht.symm
    cases Option.some.inj hids
    exact ⟨r.fdsIn, by rw [demarshalArgs]; cases r; cases hr; rfl, hv, hfds⟩
  case cons arg args ih =>
    cases details with
    | nil => cases ht
    | cons details others =>
      obtain ⟨htype, htypes⟩ := List.cons.inj ht
      obtain ⟨haccepts, hothers⟩ := List.forall_mem_cons.mp ha
      obtain ⟨hfits, hfit⟩ := List.forall_mem_cons.mp hf
      obtain ⟨hzero, hzeros⟩ := List.ne_and_not_mem_of_not_mem_cons hz
      rw [List.flatMap_cons, List.append_assoc] at hfds
      rw [List.flatMap_cons, WlMap.reserveAll, List.foldlM_append] at hids
      obtain ⟨objects₁, hid, hrest⟩ := Option.bind_eq_some_iff.mp hids
      obtain ⟨fdsIn₁, hread, hvalid, hcontents⟩ := demarshalArg_encode htype haccepts hfits hzero.symm hr hv hfds hid
      obtain ⟨fdsIn, hreads, hresult⟩ :=
        ih (r := ⟨encodeArgs memory (p + arg.words) args, fdsIn₁, objects₁⟩) htypes hothers hfit hzeros rfl hvalid
          hcontents hrest
      exact ⟨fdsIn, by simp only [demarshalArgs, hread, hreads, Option.map_some], hresult⟩

-- What has been read of whole words are whole words again, and no object with the id 0.
structure Read (r r' : Reader) (arg : Argument) : Prop where
  whole : r'.rest.length % 4 = 0
  words : 4 * arg.words + r'.rest.length = r.rest.length
  zero  : arg ≠ .object (some 0)

theorem read_word (hl : r.rest.length % 4 = 0) (hne : r.rest ≠ []) (hr : r'.rest = r.rest.drop 4)
    (hd : arg.data? = none) (hfd : arg.type ≠ .fd) (hz : arg ≠ .object (some 0)) : Read r r' arg := by
  have hpos := List.length_pos_iff.mpr hne
  have hdrop : r'.rest.length = r.rest.length - 4 := by rw [hr, List.length_drop]
  have hwords : arg.words = 1 := by
    rw [Argument.words, hd]
    exact if_neg hfd
  exact ⟨by omega, by omega, hz⟩

theorem read_data {length : ℕ} (hl : r.rest.length % 4 = 0) (hne : r.rest ≠ []) (hlt : length < 2 ^ 32)
    (hle : ¬(r.skip 4).rest.length / 4 < divRoundup length 4)
    (hr : r'.rest = (r.skip 4).rest.drop (4 * divRoundup length 4)) (hd : arg.data? = some data)
    (hdata : data.length = length) : Read r r' arg := by
  have hpos := List.length_pos_iff.mpr hne
  have hskip : (r.skip 4).rest.length = r.rest.length - 4 := List.length_drop ..
  have hdrop : r'.rest.length = (r.skip 4).rest.length - 4 * divRoundup length 4 := by rw [hr, List.length_drop]
  have hwords : arg.words = 1 + dataWords data := by rw [Argument.words, hd]
  rw [← hdata, divRoundup_eq (hdata ▸ hlt)] at hdrop hle
  exact ⟨by omega, by omega, fun he => by subst he; cases hd⟩

theorem read_demarshalArg (hl : r.rest.length % 4 = 0) (h : r.demarshalArg details = (r', some arg)) :
    Read r r' arg := by
  obtain ⟨type, nullable⟩ := details
  rw [demarshalArg] at h
  split at h
  case isTrue => cases h
  case isFalse hnonempty =>
    have hne (ht : type ≠ .fd) : r.rest ≠ [] := fun hnil => hnonempty ⟨ht, hnil⟩
    cases type with
    | uint | int | fixed =>
      cases h
      exact read_word hl (hne (by decide)) rfl rfl (by simp [Argument.type]) (by simp)
    | object =>
      simp only [demarshalObject] at h
      split at h
      case isTrue =>
        split at h <;> cases h
        exact read_word hl (hne (by decide)) rfl rfl (by simp [Argument.type]) (by simp)
      case isFalse hid =>
        cases h
        exact read_word hl (hne (by decide)) rfl rfl (by simp [Argument.type])
          fun he => hid (Option.some.inj (Argument.object.inj he))
    | newId =>
      simp only [demarshalNewId] at h
      split at h
      case isTrue => cases h
      case isFalse =>
        split at h <;> cases h
        exact read_word hl (hne (by decide)) rfl rfl (by simp [Argument.type]) (by simp)
    | array =>
      simp only [demarshalArray] at h
      split at h
      case isTrue => cases h
      case isFalse hle =>
        cases h
        refine read_data hl (hne (by decide)) (readWord r.rest).toNat_lt hle rfl rfl ?_
        have hlt := (readWord r.rest).toNat_lt
        have hdiv : divRoundup (readWord r.rest).toNat 4 = ((readWord r.rest).toNat + 3) / 4 := by
          rw [divRoundup, Nat.mod_eq_of_lt]
          omega
        rw [List.length_take]
        omega
    | string =>
      simp only [demarshalString] at h
      split at h
      case isTrue =>
        split at h <;> cases h
        exact read_word hl (hne (by decide)) rfl rfl (by simp [Argument.type]) (by simp)
      case isFalse hzero =>
        split at h
        case isTrue => cases h
        case isFalse hle =>
          split at h
          case isTrue => cases h
          case isFalse =>
            split at h
            case isTrue => cases h
            case isFalse hlength =>
              cases h
              refine read_data hl (hne (by decide)) (readWord r.rest).toNat_lt hle rfl rfl ?_
              rw [List.length_append, List.length_singleton]
              omega
    | fd =>
      simp only [demarshalFd] at h
      split at h
      case isTrue => cases h
      case isFalse =>
        obtain ⟨hr, harg⟩ := Prod.mk.inj h
        obtain ⟨fd, _, he⟩ := Option.map_eq_some_iff.mp harg
        subst hr he
        exact ⟨hl, Nat.zero_add _, by simp⟩

theorem read_demarshalArgs {details : List ArgumentDetails} {args : List Argument} (hl : r.rest.length % 4 = 0)
    (h : r.demarshalArgs details = (r', some args)) :
    4 * argsWords args ≤ r.rest.length ∧ .object (some 0) ∉ args := by
  induction details generalizing r args
  case nil =>
    cases h
    exact ⟨Nat.zero_le _, List.not_mem_nil⟩
  case cons details others ih =>
    rw [demarshalArgs] at h
    split at h
    case h_1 => cases h
    case h_2 r₁ arg harg =>
      obtain ⟨rest, hrest, he⟩ := Option.map_eq_some_iff.mp (Prod.mk.inj h).2
      subst he
      have hread := read_demarshalArg hl harg
      have hargs : r₁.demarshalArgs others = (r', some rest) := Prod.ext (Prod.mk.inj h).1 hrest
      obtain ⟨hwords, hzero⟩ := ih hread.whole hargs
      have hsum := hread.words
      rw [argsWords, List.map_cons, List.sum_cons]
      rw [argsWords] at hwords
      exact ⟨by omega, List.not_mem_cons_of_ne_of_not_mem hread.zero.symm hzero⟩

end Reader

end Libwayland
