import Mathlib

-- Numbers are exact. An object has each of its keys once.
inductive QJsonValue
  | null
  | bool (b : Bool)
  | double (d : ℚ)
  | string (s : String)
  | array (values : List QJsonValue)
  | object (fields : List (String × QJsonValue))

abbrev QJsonObject := List (String × QJsonValue)

namespace QJsonValue

def isBool : QJsonValue → Bool
  | bool _ => true
  | _      => false

def isDouble : QJsonValue → Bool
  | double _ => true
  | _        => false

def isArray : QJsonValue → Bool
  | array _ => true
  | _       => false

def toBool (defaultValue : Bool) : QJsonValue → Bool
  | bool b => b
  | _      => defaultValue

def toDouble (defaultValue : ℚ) : QJsonValue → ℚ
  | double d => d
  | _        => defaultValue

-- The default stands for a number that is not an integer of `bits` bits as well.
def toBits (bits : Nat) (defaultValue : Int) : QJsonValue → Int
  | double d => if d.den = 1 ∧ -2 ^ (bits - 1) ≤ d.num ∧ d.num < 2 ^ (bits - 1) then d.num else defaultValue
  | _        => defaultValue

def toInt (defaultValue : Int) (value : QJsonValue) : Int :=
  value.toBits 32 defaultValue

def toInteger (defaultValue : Int) (value : QJsonValue) : Int :=
  value.toBits 64 defaultValue

def toString : QJsonValue → String
  | string s => s
  | _        => ""

def toArray : QJsonValue → List QJsonValue
  | array values => values
  | _            => []

def toObject : QJsonValue → QJsonObject
  | object fields => fields
  | _             => []

theorem toBits_intCast {bits : Nat} {n : Int} (hlow : -2 ^ (bits - 1) ≤ n) (hhigh : n < 2 ^ (bits - 1))
    (defaultValue : Int) : (double n).toBits bits defaultValue = n :=
  if_pos ⟨Rat.den_intCast n, hlow, hhigh⟩

theorem toInt_intCast {n : Int} (hlow : -2 ^ 31 ≤ n) (hhigh : n < 2 ^ 31) (defaultValue : Int) :
    (double n).toInt defaultValue = n :=
  toBits_intCast hlow hhigh defaultValue

-- What an integer is read as can be written and read again.
theorem toBits_bounds {bits : Nat} {defaultValue : Int} (hlow : -2 ^ (bits - 1) ≤ defaultValue)
    (hhigh : defaultValue < 2 ^ (bits - 1)) (value : QJsonValue) :
    -2 ^ (bits - 1) ≤ value.toBits bits defaultValue ∧ value.toBits bits defaultValue < 2 ^ (bits - 1) := by
  cases value
  case double d =>
    rw [toBits]
    split
    case isTrue h => exact h.2
    case isFalse => exact ⟨hlow, hhigh⟩
  all_goals exact ⟨hlow, hhigh⟩

theorem toInt_bounds {defaultValue : Int} (hlow : -2 ^ 31 ≤ defaultValue) (hhigh : defaultValue < 2 ^ 31)
    (value : QJsonValue) : -2 ^ 31 ≤ value.toInt defaultValue ∧ value.toInt defaultValue < 2 ^ 31 :=
  @toBits_bounds 32 _ hlow hhigh value

theorem toInt_toInt {defaultValue : Int} (hlow : -2 ^ 31 ≤ defaultValue) (hhigh : defaultValue < 2 ^ 31)
    (value : QJsonValue) (defaultValue' : Int) :
    (double (value.toInt defaultValue)).toInt defaultValue' = value.toInt defaultValue :=
  have h := toInt_bounds hlow hhigh value
  toInt_intCast h.1 h.2 defaultValue'

end QJsonValue

theorem lookup_of_mem {α β : Type} [BEq α] [LawfulBEq α] {l : List (α × β)} {a : α} {b : β}
    (h : (l.map Prod.fst).Nodup) (hmem : (a, b) ∈ l) : l.lookup a = some b := by
  induction l
  case nil => cases hmem
  case cons e l ih =>
    have ⟨hnot, h⟩ := List.nodup_cons.mp h
    rw [List.lookup_cons]
    cases List.mem_cons.mp hmem
    case inl he =>
      subst he
      rw [beq_self_eq_true]
    case inr hmem =>
      have hne : (a == e.1) = false := beq_eq_false_iff_ne.mpr fun he => hnot (List.mem_map.mpr ⟨_, hmem, he⟩)
      rw [hne]
      exact ih h hmem

namespace QJsonObject

def value (data : QJsonObject) (key : String) : QJsonValue :=
  (data.lookup key).getD .null

-- The fields that are present.
def ofFields (fields : List (String × Option QJsonValue)) : QJsonObject :=
  fields.filterMap fun field => field.2.map (field.1, ·)

theorem lookup_ofFields {fields : List (String × Option QJsonValue)} (h : (fields.map Prod.fst).Nodup) (key : String) :
    (ofFields fields).lookup key = (fields.lookup key).join := by
  induction fields
  case nil => rfl
  case cons field fields ih =>
    have ⟨k, value⟩ := field
    have ⟨hnot, h⟩ := List.nodup_cons.mp h
    have hrest := ih h
    have hcons : ofFields ((k, value) :: fields) = (value.map (k, ·)).toList ++ ofFields fields := by
      cases value
      case none => rfl
      case some => rfl
    rw [hcons, List.lookup_cons]
    cases hk : key == k
    case false =>
      cases value
      case none => exact hrest
      case some v => exact List.lookup_cons.trans (by rw [hk]; exact hrest)
    case true =>
      have hk := eq_of_beq hk
      subst hk
      cases value
      case none =>
        have hnone : fields.lookup key = none := List.lookup_eq_none_iff.mpr fun p hp =>
          bne_iff_ne.mpr fun he => hnot (List.mem_map.mpr ⟨p, hp, he.symm⟩)
        rw [Option.map_none, Option.toList_none, List.nil_append, hrest, hnone]
        rfl
      case some v => exact List.lookup_cons_self

end QJsonObject

-- How one field of an object is read and written. A value that cannot be read is as good as none.
structure JsonField (α : Type) where
  key   : String
  read  : QJsonValue → Option α
  write : α → QJsonValue

namespace JsonField

variable {α : Type}

def load (field : JsonField α) (data : QJsonObject) : Option α :=
  (data.lookup field.key).bind field.read

def save (field : JsonField α) (value : Option α) : String × Option QJsonValue :=
  (field.key, value.map field.write)

-- What has been read stays the same when it is written and read again.
def Stable (field : JsonField α) : Prop :=
  ∀ value a, field.read value = some a → field.read (field.write a) = some a

theorem Stable.load {field : JsonField α} (h : field.Stable) (data : QJsonObject) :
    ∀ a ∈ field.load data, field.read (field.write a) = some a :=
  fun a ha =>
    have ⟨value, _, hread⟩ := Option.bind_eq_some_iff.mp ha
    h value a hread

theorem load_save (field : JsonField α) {value : Option α} (h : ∀ a ∈ value, field.read (field.write a) = some a)
    {fields : List (String × Option QJsonValue)} (hkeys : (fields.map Prod.fst).Nodup)
    (hmem : field.save value ∈ fields) : field.load (QJsonObject.ofFields fields) = value := by
  rw [JsonField.load, QJsonObject.lookup_ofFields hkeys, lookup_of_mem hkeys hmem]
  cases value
  case none => rfl
  case some a => exact h a rfl

-- A value of an enumeration is written by its name.
def ofNames [DecidableEq α] (key : String) (names : List (String × α)) : JsonField α where
  key   := key
  read  := fun value => names.lookup value.toString
  write := fun a => .string (((names.find? (·.2 = a)).map Prod.fst).getD "")

theorem stable_ofNames [DecidableEq α] (key : String) {names : List (String × α)} (h : (names.map Prod.fst).Nodup) :
    (ofNames key names).Stable := by
  intro value a hread
  have hread : names.lookup value.toString = some a := hread
  have ⟨before, after, hnames, _⟩ := List.lookup_eq_some_iff.mp hread
  have hmem : (value.toString, a) ∈ names := hnames ▸ List.mem_append_right _ List.mem_cons_self
  cases hf : names.find? (·.2 = a)
  case none => exact absurd rfl (of_decide_eq_false (eq_false_of_ne_true (List.find?_eq_none.mp hf _ hmem)))
  case some e =>
    have he : e.2 = a := by simpa using List.find?_some hf
    have hlookup : names.lookup e.1 = some a := lookup_of_mem h (he ▸ List.mem_of_find?_eq_some hf)
    simp only [ofNames, hf, Option.map_some, Option.getD_some, QJsonValue.toString, hlookup]

end JsonField
