/-
JSON values (`QJsonValue`) with the reading operations the modelled code
uses. An object lists its members sorted by key, each key once, as
`QJsonObject` stores them; a number is an IEEE double, or an integer of 64
bits, read as the exact rational it denotes. `toDouble` reads an integer as
the nearest double.

Reading is total, as in Qt: a member that is absent is `none`
(`Undefined`), and a conversion of a value of another type gives the
empty value of the wanted type.
-/
import LocalLLM.Core.Text

namespace LocalLLM

/-- An IEEE double: a finite one is the rational it denotes. -/
inductive Double
  | finite (value : ℚ)
  | infinite (negative : Bool)
  | nan
deriving DecidableEq

namespace Double

/-- `std::isfinite`. -/
def isFinite : Double → Bool
  | .finite _ => true
  | _ => false

/-- The comparison `x < y`; false when either is not a number. -/
def lt : Double → Double → Bool
  | .finite x, .finite y => x < y
  | .finite _, .infinite n => !n
  | .infinite n, .finite _ => n
  | .infinite n, .infinite m => n && !m
  | _, _ => false

/-- The comparison `x <= y`. -/
def le : Double → Double → Bool
  | .finite x, .finite y => x ≤ y
  | .finite _, .infinite n => !n
  | .infinite n, .finite _ => n
  | .infinite n, .infinite m => n || !m
  | _, _ => false

end Double

/-- A JSON value. -/
inductive Json
  | null
  | bool (b : Bool)
  | number (d : Double)
  | string (s : QString)
  | array (items : List Json)
  | object (members : List (QString × Json))

/-- `QJsonObject`: the members, sorted by key. -/
abbrev JsonObject := List (QString × Json)

/-- A number that is an integer. -/
def jsonInt (n : Int) : Json := .number (.finite n)

namespace Json

mutual

/-- Equality of values, member by member. -/
def beq : Json → Json → Bool
  | .null, .null => true
  | .bool a, .bool b => a == b
  | .number a, .number b => a == b
  | .string a, .string b => a == b
  | .array a, .array b => beqItems a b
  | .object a, .object b => beqMembers a b
  | _, _ => false

def beqItems : List Json → List Json → Bool
  | [], [] => true
  | a :: as, b :: bs => beq a b && beqItems as bs
  | _, _ => false

def beqMembers : List (QString × Json) → List (QString × Json) → Bool
  | [], [] => true
  | (k, a) :: as, (l, b) :: bs => k == l && beq a b && beqMembers as bs
  | _, _ => false

end

mutual

/-- The structural test tells values apart. Arrays and members are tested along
with it, so the three are proved together. -/
theorem eq_of_beq : ∀ a b : Json, beq a b = true → a = b
  | .null, b, h => by cases b <;> simp_all [beq]
  | .bool a, b, h => by cases b <;> simp_all [beq]
  | .number a, b, h => by cases b <;> simp_all [beq]
  | .string a, b, h => by cases b <;> simp_all [beq]
  | .array a, b, h => by
      cases b with
      | array b => rw [eq_of_beqItems a b (by simpa [beq] using h)]
      | _ => simp [beq] at h
  | .object a, b, h => by
      cases b with
      | object b => rw [eq_of_beqMembers a b (by simpa [beq] using h)]
      | _ => simp [beq] at h

theorem eq_of_beqItems : ∀ a b : List Json, beqItems a b = true → a = b
  | [], [], _ => rfl
  | [], _ :: _, h => by simp [beqItems] at h
  | _ :: _, [], h => by simp [beqItems] at h
  | a :: as, b :: bs, h => by
      simp only [beqItems, Bool.and_eq_true] at h
      rw [eq_of_beq a b h.1, eq_of_beqItems as bs h.2]

theorem eq_of_beqMembers : ∀ a b : List (QString × Json),
    beqMembers a b = true → a = b
  | [], [], _ => rfl
  | [], _ :: _, h => by simp [beqMembers] at h
  | _ :: _, [], h => by simp [beqMembers] at h
  | (k, a) :: as, (l, b) :: bs, h => by
      simp only [beqMembers, Bool.and_eq_true, beq_iff_eq] at h
      rw [h.1.1, eq_of_beq a b h.1.2, eq_of_beqMembers as bs h.2]

end

mutual

theorem beq_self : ∀ a : Json, beq a a = true
  | .null => rfl
  | .bool _ => by simp [beq]
  | .number _ => by simp [beq]
  | .string _ => by simp [beq]
  | .array a => by simp [beq, beqItems_self a]
  | .object a => by simp [beq, beqMembers_self a]

theorem beqItems_self : ∀ a : List Json, beqItems a a = true
  | [] => rfl
  | a :: as => by simp [beqItems, beq_self a, beqItems_self as]

theorem beqMembers_self : ∀ a : List (QString × Json), beqMembers a a = true
  | [] => rfl
  | (_, a) :: as => by simp [beqMembers, beq_self a, beqMembers_self as]

end

instance : DecidableEq Json := fun a b =>
  decidable_of_iff (beq a b = true) ⟨eq_of_beq a b, fun h => h ▸ beq_self a⟩

-- ================================================================= reading

/-- `QJsonObject::value`; `none` is `Undefined`. -/
def lookup (o : JsonObject) (key : QString) : Option Json :=
  (o.find? fun m => m.1 == key).map Prod.snd

/-- `QJsonObject::contains`. -/
def contains (o : JsonObject) (key : QString) :
    Bool := o.any fun m => m.1 == key

/-- `QJsonObject::insert`: the members stay sorted by key. -/
def insert (o : JsonObject) (key : QString) (value : Json) : JsonObject :=
  (o.takeWhile fun m => compare m.1 key == .lt) ++ (key, value)
    :: (o.dropWhile fun m => compare m.1 key == .lt).filter fun m => m.1 != key

/-- `QJsonObject{{key, value}, ...}`. -/
def ofMembers (members : List (QString × Json)) : JsonObject :=
  members.foldl (fun o m => insert o m.1 m.2) []

/-- `QJsonValue::isString`, `isArray`, `isObject`, `isNull` on a member
that may be absent. -/
def isString : Option Json → Bool
  | some (.string _) => true
  | _ => false

def isArray : Option Json → Bool
  | some (.array _) => true
  | _ => false

def isObject : Option Json → Bool
  | some (.object _) => true
  | _ => false

def isNull : Option Json → Bool
  | some .null => true
  | _ => false

/-- `QJsonValue::isBool`, `isDouble`. -/
def isBool : Option Json → Bool
  | some (.bool _) => true
  | _ => false

def isDouble : Option Json → Bool
  | some (.number _) => true
  | _ => false

/-- `QJsonValue::toString`. -/
def toText : Option Json → QString
  | some (.string s) => s
  | _ => []

/-- `QJsonValue::toArray`. -/
def toArray : Option Json → List Json
  | some (.array items) => items
  | _ => []

/-- `QJsonValue::toObject`. -/
def toObject : Option Json → JsonObject
  | some (.object members) => members
  | _ => []

/-- `QJsonValue::toBool`. -/
def toBool : Option Json → Bool
  | some (.bool b) => b
  | _ => false

/-- A natural number as a double: to 53 bits, a tie to the even side. -/
def roundNat (n : Nat) : Nat :=
  let unit := 2 ^ (n.log2 - 52)
  let up := unit < 2 * (n % unit)
    ∨ (2 * (n % unit) = unit ∧ n / unit % 2 = 1)
  (n / unit + if up then 1 else 0) * unit

def roundInt (n : Int) : Int := n.sign * roundNat n.natAbs

/-- `QJsonValue::toDouble`, with a default for what is no number. -/
def toDouble (fallback : Double := .finite 0) : Option Json → Double
  | some (.number (.finite q)) =>
      .finite (if q.den = 1 then roundInt q.num else q)
  | some (.number d) => d
  | _ => fallback

/-- `QJsonValue::toInt`: 0 for what is no integer of 32 bits. -/
def toInt : Option Json → Int
  | some (.number (.finite q)) =>
      if q.den = 1 ∧ -2 ^ 31 ≤ q.num ∧ q.num < 2 ^ 31 then q.num else 0
  | _ => 0

/-- `QJsonValue::toInteger`: 0 for what is no integer of 64 bits. -/
def toInteger : Option Json → Int
  | some (.number (.finite q)) =>
      if q.den = 1 ∧ -2 ^ 63 ≤ q.num ∧ q.num < 2 ^ 63 then q.num else 0
  | _ => 0

-- ================================================================= numbers

/-- Below 2^53 an integer is a double. -/
theorem roundNat_small {n : Nat} (h : n < 2 ^ 53) : roundNat n = n := by
  have hunit : n.log2 - 52 = 0 := by
    by_cases hzero : n = 0
    · rw [hzero]
      rfl
    · have hlog := (Nat.log2_lt hzero).2 h
      omega
  unfold roundNat
  rw [hunit]
  simp [Nat.mod_one]

/-- Integers below 2^53 are doubles, so reading them as such
changes nothing. -/
theorem roundInt_small {n : Int} (h : n.natAbs < 2 ^ 53) : roundInt n = n := by
  unfold roundInt
  rw [roundNat_small h]
  exact Int.sign_mul_natAbs n

/-- Rounding takes no integer below 2^53. -/
theorem le_roundNat {n : Nat} (h : 2 ^ 53 ≤ n) : 2 ^ 53 ≤ roundNat n := by
  have hne : n ≠ 0 := by omega
  have hlog : 53 ≤ n.log2 := (Nat.le_log2 hne).2 h
  have hquot : 2 ^ 52 ≤ n / 2 ^ (n.log2 - 52) := by
    rw [Nat.le_div_iff_mul_le (Nat.two_pow_pos _), ← Nat.pow_add]
    have hsum : 52 + (n.log2 - 52) = n.log2 := by omega
    rw [hsum]
    exact Nat.log2_self_le hne
  have hunit : 2 ^ 1 ≤ 2 ^ (n.log2 - 52) :=
    Nat.pow_le_pow_right (by decide) (by omega)
  unfold roundNat
  calc 2 ^ 53 = 2 ^ 52 * 2 ^ 1 := by decide
    _ ≤ n / 2 ^ (n.log2 - 52) * 2 ^ (n.log2 - 52) := Nat.mul_le_mul hquot hunit
    _ ≤ _ := Nat.mul_le_mul_right _ (Nat.le_add_right _ _)

-- ================================================================= members

/-- A member is looked for from the front. -/
theorem lookup_cons (m : QString × Json) (o : JsonObject) (key : QString) :
    lookup (m :: o) key = if m.1 = key then some m.2 else lookup o key := by
  unfold lookup
  rw [List.find?_cons]
  by_cases hkey : m.1 = key
  · rw [if_pos hkey, beq_iff_eq.2 hkey]
    rfl
  · rw [if_neg hkey, beq_eq_false_iff_ne.2 hkey]

/-- What is found in the first part hides the second. -/
theorem lookup_append (o p : JsonObject) (key : QString) :
    lookup (o ++ p) key = (lookup o key).or (lookup p key) := by
  unfold lookup
  rw [List.find?_append, Option.map_or]

/-- No member before the place of a key has that key. -/
theorem lookup_takeWhile (o : JsonObject) (key : QString) :
    lookup (o.takeWhile fun m => compare m.1 key == .lt) key = none := by
  unfold lookup
  rw [Option.map_eq_none_iff, List.find?_eq_none]
  intro m hm hkey
  have hlt := List.mem_takeWhile_imp
    (p := fun m : QString × Json => compare m.1 key == .lt) hm
  have heq : m.1 = key := beq_iff_eq.1 hkey
  rw [heq] at hlt
  simp only [Std.compare_self] at hlt
  exact Bool.noConfusion hlt

/-- Taking a member out leaves the others where they are. -/
theorem lookup_filter (o : JsonObject) {key other : QString}
    (h : other ≠ key) :
    lookup (o.filter fun m => m.1 != key) other = lookup o other := by
  have hsame : (fun m : QString × Json => decide ((m.1 != key) = true
      ∧ (m.1 == other) = true)) = fun m => m.1 == other := by
    funext m
    by_cases hkey : m.1 = other
    · simp [hkey, h]
    · simp [hkey]
  unfold lookup
  rw [List.find?_filter, hsame]

@[simp] theorem lookup_insert_self (o : JsonObject) (key : QString)
    (value : Json) : lookup (insert o key value) key = some value := by
  unfold insert
  rw [lookup_append, lookup_takeWhile, Option.none_or, lookup_cons, if_pos rfl]

/-- Setting a member leaves the others alone. -/
theorem lookup_insert_ne (o : JsonObject) {key other : QString} (value : Json)
    (h : other ≠ key) : lookup (insert o key value) other
      = lookup o other := by
  unfold insert
  rw [lookup_append, lookup_cons, if_neg (Ne.symm h), lookup_filter _ h,
    ← lookup_append, List.takeWhile_append_dropWhile]

/-- Of the members with one key, the last one stays. -/
theorem lookup_ofMembers (members : List (QString × Json)) (key : QString) :
    lookup (ofMembers members) key = lookup members.reverse key := by
  suffices h : ∀ o : JsonObject,
      lookup (members.foldl (fun o m => insert o m.1 m.2) o) key
        = lookup (members.reverse ++ o) key by
    have h := h []
    rwa [List.append_nil] at h
  induction members with
  | nil =>
      intro o
      rfl
  | cons m members ih =>
      intro o
      rw [List.foldl_cons, ih, List.reverse_cons, List.append_assoc,
        lookup_append, lookup_append, List.singleton_append, lookup_cons]
      by_cases hkey : m.1 = key
      · rw [← hkey, lookup_insert_self, if_pos rfl]
      · rw [lookup_insert_ne _ _ (Ne.symm hkey), if_neg hkey]

end Json

end LocalLLM
