/-
The texts of RFC 8259, and where their strings are.

`Derives` is the grammar. A reader that looks for quotation marks and
backslashes only (`Scan`) is in a string, behind a backslash in one, or
outside; it begins outside and, over a whole text of the grammar, ends
outside (`JsonText.outside`). So what follows a complete text does not stand
in a string of it.
-/
import LocalLLM.Core.Text

namespace LocalLLM

-- ================================================================ the grammar

/-- The white space of the grammar. -/
def isJsonSpace (u : QChar) : Bool :=
  u == 0x20 || u == 0x09 || u == 0x0A || u == 0x0D

def isDigit (u : QChar) : Bool := 0x30 ≤ u && u ≤ 0x39

def isHexDigit (u : QChar) : Bool :=
  isDigit u || (0x41 ≤ u && u ≤ 0x46) || (0x61 ≤ u && u ≤ 0x66)

/-- A quotation mark and a backslash. -/
def quote : QChar := 0x22
def backslash : QChar := 0x5C

/-- White space, or nothing. -/
def Blank (t : QString) : Prop := ∀ u ∈ t, isJsonSpace u = true

/-- What stands between the quotation marks of a string. -/
inductive StringBody : QString → Prop
  | nil : StringBody []
  | plain {u : QChar} {t : QString} : 0x20 ≤ u → u ≠ quote → u ≠ backslash →
      StringBody t → StringBody (u :: t)
  | escape {u : QChar} {t : QString} : u ∈ qs "\"\\/bfnrt" → StringBody t →
      StringBody (backslash :: u :: t)
  | unicode {a b c d : QChar} {t : QString} : isHexDigit a = true →
      isHexDigit b = true → isHexDigit c = true → isHexDigit d = true →
      StringBody t → StringBody (backslash :: qc 'u' :: a :: b :: c :: d :: t)

/-- One digit or more. -/
def Digits (t : QString) : Prop := t ≠ [] ∧ ∀ u ∈ t, isDigit u = true

/-- A sign, an integer without leading zeros, a fraction and an exponent. -/
inductive NumberText : QString → Prop
  | mk {sign int frac exp : QString} : sign = [] ∨ sign = [qc '-'] →
      (int = [qc '0'] ∨ Digits int ∧ int.head? ≠ some (qc '0')) →
      (frac = [] ∨ ∃ digits, Digits digits ∧ frac = qc '.' :: digits) →
      (exp = [] ∨ ∃ e sign digits, e ∈ qs "eE" ∧ (sign = [] ∨ sign = [qc '+']
        ∨ sign = [qc '-']) ∧ Digits digits ∧ exp = e :: (sign ++ digits)) →
      NumberText (sign ++ int ++ frac ++ exp)

/-- The symbols of the grammar that derive one another. -/
inductive JsonSymbol
  | value | elements | members

/-- What a symbol derives. -/
inductive Derives : JsonSymbol → QString → Prop
  | null : Derives .value (qs "null")
  | true : Derives .value (qs "true")
  | false : Derives .value (qs "false")
  | number {t : QString} : NumberText t → Derives .value t
  | string {t : QString} : StringBody t →
      Derives .value (quote :: (t ++ [quote]))
  | emptyArray {w : QString} : Blank w →
      Derives .value (qc '[' :: (w ++ [qc ']']))
  | array {t : QString} : Derives .elements t →
      Derives .value (qc '[' :: (t ++ [qc ']']))
  | emptyObject {w : QString} : Blank w →
      Derives .value (qc '\x7b' :: (w ++ [qc '\x7d']))
  | object {t : QString} : Derives .members t →
      Derives .value (qc '\x7b' :: (t ++ [qc '\x7d']))
  | element {w v w' : QString} : Blank w → Derives .value v → Blank w' →
      Derives .elements (w ++ v ++ w')
  | elements {w v w' t : QString} : Blank w → Derives .value v → Blank w' →
      Derives .elements t → Derives .elements (w ++ v ++ w' ++ [qc ','] ++ t)
  | member {w k w' w'' v w''' : QString} : Blank w → StringBody k → Blank w' →
      Blank w'' → Derives .value v → Blank w''' →
      Derives .members (w ++ [quote] ++ k ++ [quote] ++ w' ++ [qc ':'] ++ w''
        ++ v ++ w''')
  | members {w k w' w'' v w''' t : QString} : Blank w → StringBody k →
      Blank w' → Blank w'' → Derives .value v → Blank w''' →
      Derives .members t →
      Derives .members (w ++ [quote] ++ k ++ [quote] ++ w' ++ [qc ':'] ++ w''
        ++ v ++ w''' ++ [qc ','] ++ t)

/-- A text of the grammar: a value, with white space around it. -/
def JsonText (t : QString) : Prop :=
  ∃ w v w', Blank w ∧ Derives .value v ∧ Blank w' ∧ t = w ++ v ++ w'

-- ================================================================ the strings

/-- Where a reader is. -/
inductive Scan
  | outside | inside | escaped
deriving DecidableEq

/-- One unit further. -/
def Scan.step : Scan → QChar → Scan
  | .outside, u => if u = quote then .inside else .outside
  | .inside, u =>
      if u = quote then .outside
      else if u = backslash then .escaped else .inside
  | .escaped, _ => .inside

/-- Where a reader is after a text, from its beginning. -/
def scan (t : QString) : Scan := t.foldl Scan.step .outside

/-- A text over which a reader that is outside stays outside at the end. -/
def Closed (t : QString) : Prop := t.foldl Scan.step .outside = .outside

theorem Closed.nil : Closed [] := rfl

theorem Closed.append {s t : QString} (hs : Closed s) (ht : Closed t) :
    Closed (s ++ t) := by
  unfold Closed at hs ht ⊢
  rw [List.foldl_append, hs, ht]

theorem Closed.of_ne_quote {t : QString} (h : ∀ u ∈ t, u ≠ quote) :
    Closed t := by
  induction t with
  | nil => exact Closed.nil
  | cons u t ih =>
      unfold Closed
      rw [List.foldl_cons, show Scan.step .outside u = .outside from
        if_neg (h u (List.mem_cons_self ..))]
      exact ih fun v hv => h v (List.mem_cons_of_mem _ hv)

theorem Closed.cons {u : QChar} {t : QString} (hu : u ≠ quote)
    (ht : Closed t) : Closed (u :: t) :=
  Closed.append (Closed.of_ne_quote (t := [u]) (by simpa using hu)) ht

/-- White space has no quotation marks in it. -/
theorem Blank.closed {t : QString} (h : Blank t) : Closed t := by
  refine Closed.of_ne_quote fun u hu hquote => ?_
  have hspace := h u hu
  rw [hquote] at hspace
  exact absurd hspace (by decide)

theorem ne_quote_of_isDigit {u : QChar} (h : isDigit u = true) :
    u ≠ quote := by
  intro hquote
  rw [hquote] at h
  exact absurd h (by decide)

theorem Digits.closed {t : QString} (h : Digits t) : Closed t :=
  Closed.of_ne_quote fun u hu => ne_quote_of_isDigit (h.2 u hu)

/-- In a string, a hexadecimal digit is a unit like others. -/
theorem step_hexDigit {u : QChar} (h : isHexDigit u = true) :
    Scan.step .inside u = .inside := by
  unfold Scan.step
  dsimp only
  rw [if_neg, if_neg]
  · intro hu
    rw [hu] at h
    exact absurd h (by decide)
  · intro hu
    rw [hu] at h
    exact absurd h (by decide)

/-- What stands in a string keeps the reader in it. -/
theorem StringBody.inside {t : QString} (h : StringBody t) :
    t.foldl Scan.step .inside = .inside := by
  induction h with
  | nil => rfl
  | plain _ hquote hbackslash _ ih =>
      rw [List.foldl_cons]
      unfold Scan.step
      dsimp only
      rw [if_neg hquote, if_neg hbackslash]
      exact ih
  | escape _ _ ih => exact ih
  | unicode ha hb hc hd _ ih =>
      rw [List.foldl_cons, List.foldl_cons, List.foldl_cons, List.foldl_cons,
        List.foldl_cons, List.foldl_cons]
      show List.foldl Scan.step
        ((((Scan.inside.step _).step _).step _).step _) _
        = _
      rw [step_hexDigit ha, step_hexDigit hb, step_hexDigit hc,
        step_hexDigit hd]
      exact ih

/-- A string with its quotation marks. -/
theorem StringBody.closed {t : QString} (h : StringBody t) :
    Closed ([quote] ++ t ++ [quote]) := by
  unfold Closed
  rw [List.foldl_append, List.foldl_append]
  show List.foldl _ (List.foldl Scan.step .inside t) [quote] = _
  rw [h.inside]
  rfl

theorem NumberText.closed {t : QString} (h : NumberText t) : Closed t := by
  cases h with
  | mk hsign hint hfrac hexp =>
      have hsign' : ∀ {s : QString}, s = [] ∨ s = [qc '+'] ∨ s = [qc '-'] →
          Closed s := by
        intro s hs
        rcases hs with rfl | rfl | rfl <;> exact rfl
      refine ((Closed.append ?_ ?_).append ?_).append ?_
      · rcases hsign with rfl | rfl <;> exact rfl
      · rcases hint with rfl | ⟨hdigits, -⟩
        · exact rfl
        · exact hdigits.closed
      · rcases hfrac with rfl | ⟨digits, hdigits, rfl⟩
        · exact rfl
        · exact Closed.cons (by decide) hdigits.closed
      · rcases hexp with rfl | ⟨e, s, digits, he, hs, hdigits, rfl⟩
        · exact rfl
        · refine Closed.cons ?_ ((hsign' hs).append hdigits.closed)
          intro hquote
          rw [hquote] at he
          exact absurd he (by decide)

/-- Whatever the grammar derives ends its strings. -/
theorem Derives.closed {x : JsonSymbol} {t : QString} (h : Derives x t) :
    Closed t := by
  have hone : ∀ u : QChar, u ≠ quote → Closed [u] := fun u hu =>
    Closed.cons hu Closed.nil
  have hcomma := hone (qc ',') (by decide)
  have hcolon := hone (qc ':') (by decide)
  induction h with
  | null => exact rfl
  | true => exact rfl
  | false => exact rfl
  | number h => exact h.closed
  | string h => exact h.closed
  | emptyArray hw =>
      exact Closed.cons (by decide) (hw.closed.append (hone _ (by decide)))
  | array _ ih =>
      exact Closed.cons (by decide) (ih.append (hone _ (by decide)))
  | emptyObject hw =>
      exact Closed.cons (by decide) (hw.closed.append (hone _ (by decide)))
  | object _ ih =>
      exact Closed.cons (by decide) (ih.append (hone _ (by decide)))
  | element hw _ hw' ih => exact (hw.closed.append ih).append hw'.closed
  | elements hw _ hw' _ ih ih' =>
      exact (((hw.closed.append ih).append hw'.closed).append
        hcomma).append ih'
  | @member w k w' w'' v w''' hw hk hw' hw'' _ hw''' ih =>
      have hkey := hw.closed.append hk.closed
      rw [← List.append_assoc, ← List.append_assoc] at hkey
      exact ((((hkey.append hw'.closed).append hcolon).append
        hw''.closed).append
        ih).append hw'''.closed
  | @members w k w' w'' v w''' t hw hk hw' hw'' _ hw''' _ ih ih' =>
      have hkey := hw.closed.append hk.closed
      rw [← List.append_assoc, ← List.append_assoc] at hkey
      exact ((((((hkey.append hw'.closed).append hcolon).append
        hw''.closed).append ih).append hw'''.closed).append hcomma).append ih'

/-- A whole text ends its strings. -/
theorem JsonText.outside {t : QString} (h : JsonText t) :
    scan t = .outside := by
  obtain ⟨w, v, w', hw, hv, hw', rfl⟩ := h
  exact (hw.closed.append hv.closed).append hw'.closed

end LocalLLM
