import Mathlib.Algebra.Order.Ring.Nat
import SurfaceTree.Codec.Json

namespace SurfaceTree

namespace Element

mutual
/-- How many arrays and objects are nested in each other in the text of an element: that of the
element, then either its array of attributes and a pair in it, or its array of children and what is
nested in one of them. -/
def nesting : Element → Nat
  | ⟨_, attrs, children, _⟩ =>
    1 + max (1 + if attrs.isEmpty then 0 else 1) (1 + nestingOfAll children)

/-- The deepest nesting among some elements. -/
def nestingOfAll : List Element → Nat
  | [] => 0
  | x :: rest => max (nesting x) (nestingOfAll rest)
end

end Element

namespace Json

/-- Puts a character in front of what was read behind it. -/
def consChar (c : Char) (read : List Char × List Char) : List Char × List Char :=
  (c :: read.1, read.2)

/-- A character with a short escape is read back from it. -/
theorem stringBody_short {c e : Char} (rest : List Char) (short : shortEscape? c = some e) :
    stringBody ('\\' :: c :: rest) = (stringBody rest).map (consChar e) := by
  have notCode : c ≠ 'u' := by
    rintro rfl
    cases short
  rw [stringBody]
  · rw [short]
    cases stringBody rest <;> rfl
  · rintro _ _ _ _ _ rfl
    exact absurd rfl notCode

/-- A character that needs no escape is read as itself. -/
theorem stringBody_plain {c : Char} (rest : List Char) (printable : ¬ c.toNat < 0x20)
    (noQuote : c ≠ '"') (noEscape : c ≠ '\\') :
    stringBody (c :: rest) = (stringBody rest).map (consChar c) := by
  rw [stringBody]
  · rw [if_neg (by simp [printable, noEscape])]
    cases stringBody rest <;> rfl
  all_goals simp [noQuote, noEscape]

/-- A control without a short escape is written by its code point. -/
theorem stringBody_code {c : Char} (rest : List Char) (control : c.toNat < 0x20) :
    stringBody ('\\' :: 'u' :: '0' :: '0' :: Nat.digitChar (c.toNat / 16)
      :: Nat.digitChar (c.toNat % 16) :: rest) = (stringBody rest).map (consChar c) := by
  have code : hex4? '0' '0' (Nat.digitChar (c.toNat / 16)) (Nat.digitChar (c.toNat % 16))
      = some c.toNat := by
    have all : ∀ n < 0x20,
        hex4? '0' '0' (Nat.digitChar (n / 16)) (Nat.digitChar (n % 16)) = some n := by decide
    exact all c.toNat control
  rw [stringBody, code, Option.bind_eq_bind, Option.bind_some, if_neg (by omega),
    if_neg (by omega), Char.ofNat_toNat]
  cases stringBody rest <;> rfl

/-- Every character is read back from the way it is written. -/
theorem stringBody_escaped (c : Char) (rest : List Char) :
    stringBody (escaped c ++ rest) = (stringBody rest).map (consChar c) := by
  unfold escaped
  split
  case h_8 =>
    split
    · next control => exact stringBody_code rest control
    · next printable => exact stringBody_plain rest printable ‹_› ‹_›
  all_goals exact stringBody_short rest rfl

/-- The characters of a text are read back up to its closing quote. -/
theorem stringBody_written (cs rest : List Char) :
    stringBody (cs.flatMap escaped ++ '"' :: rest) = some (cs, rest) := by
  induction cs with
  | nil => rfl
  | cons c cs ih =>
    rw [List.flatMap_cons, List.append_assoc, stringBody_escaped, ih]
    rfl

/-- A text is read back from its quotes, whatever follows. -/
theorem string_quoted (s : String) (rest : List Char) : string (quoted s rest) = some (s, rest) := by
  have body := stringBody_written s.toList rest
  simp [string, quoted, expect, body]

/-- What a style puts between tokens is skipped. -/
@[simp] theorem skip_lineBreak (style : Style) (level : Nat) (rest : List Char) :
    skip (style.lineBreak level rest) = skip rest := by
  cases style with
  | compact => rfl
  | pretty =>
    have blanks (count : Nat) : skip (List.replicate count ' ' ++ rest) = skip rest := by
      induction count with
      | zero => rfl
      | succ count ih => exact ih
    exact blanks (2 * level)

/-- Skipping blanks does not lengthen a text. -/
theorem length_skip_le (cs : List Char) : (skip cs).length ≤ cs.length :=
  (List.dropWhile_sublist _).length_le

/-- A writer keeps the text that follows. -/
def Keeps (write : List Char → List Char) : Prop := ∀ rest, rest.length ≤ (write rest).length

namespace Keeps

theorem cons (c : Char) : Keeps (c :: ·) := fun rest => Nat.le_succ rest.length

/-- Writing in front of what keeps the rest keeps it too. -/
theorem comp {write write' : List Char → List Char} (keeps : Keeps write) (keeps' : Keeps write') :
    Keeps (write ∘ write') := fun rest => Nat.le_trans (keeps' rest) (keeps _)

theorem append (cs : List Char) : Keeps (cs ++ ·) := fun rest => by
  rw [List.length_append]
  exact Nat.le_add_left ..

theorem lineBreak (style : Style) (level : Nat) : Keeps (style.lineBreak level) := by
  cases style with
  | compact => exact fun rest => Nat.le_refl _
  | pretty => exact (cons '\n').comp (append _)

theorem quoted (s : String) : Keeps (quoted s) :=
  (cons '"').comp ((append _).comp (cons '"'))

theorem key (style : Style) (level : Nat) (word : String) : Keeps (key style level word) := by
  have colon : Keeps style.colon := by
    cases style with
    | compact => exact cons ':'
    | pretty => exact (cons ':').comp (cons ' ')
  exact (lineBreak style level).comp ((quoted word).comp colon)

/-- Items that keep the rest keep it one after another. -/
theorem furtherItems {style : Style} {level : Nat} {items : List (List Char → List Char)}
    (each : ∀ item ∈ items, Keeps item) : Keeps (furtherItems style level items) := by
  induction items with
  | nil => exact (lineBreak style level).comp (cons ']')
  | cons item items ih =>
    obtain ⟨here, later⟩ := List.forall_mem_cons.mp each
    exact (cons ',').comp ((lineBreak style (level + 1)).comp (here.comp (ih later)))

theorem array {style : Style} {level : Nat} {items : List (List Char → List Char)}
    (each : ∀ item ∈ items, Keeps item) : Keeps (array style level items) := by
  cases items with
  | nil => exact (cons '[').comp (cons ']')
  | cons item items =>
    obtain ⟨here, later⟩ := List.forall_mem_cons.mp each
    exact (cons '[').comp ((lineBreak style (level + 1)).comp (here.comp (furtherItems later)))

theorem attrPair (style : Style) (level : Nat) (attr : String × String) :
    Keeps (attrPair style level attr) :=
  array (List.forall_mem_cons.mpr ⟨quoted attr.1, List.forall_mem_singleton.mpr (quoted attr.2)⟩)

/-- An optional text is read back, and nothing is read as nothing. -/
theorem optional (text : Option String) : Keeps (optional text) := by
  cases text with
  | none => exact append _
  | some text => exact quoted text

mutual
/-- The text of an element keeps what follows, at every depth. -/
theorem element (style : Style) (level : Nat) (x : Element) : Keeps (element style level x) := by
  obtain ⟨name, attrs, children, text⟩ := x
  have pairs : ∀ item ∈ attrs.map (Json.attrPair style (level + 1 + 1)), Keeps item :=
    List.forall_mem_map.mpr fun attr _ => attrPair style _ attr
  have parts := elements style (level + 1 + 1) children
  exact (cons '\x7b').comp ((key _ _ _).comp ((quoted name).comp ((cons ',').comp
    ((key _ _ _).comp ((array pairs).comp ((cons ',').comp ((key _ _ _).comp ((array parts).comp
    ((cons ',').comp ((key _ _ _).comp ((optional text).comp ((lineBreak _ _).comp
    (cons '\x7d')))))))))))))

theorem elements (style : Style) (level : Nat) (xs : List Element) :
    ∀ item ∈ elements style level xs, Keeps item := by
  cases xs with
  | nil => exact List.forall_mem_nil _
  | cons x xs => exact List.forall_mem_cons.mpr ⟨element style level x, elements style level xs⟩
end

end Keeps

variable {α : Type} {room : Nat}

/-- What a reader makes of the text that is written for a value in front of any rest, as long as no
more than `room` characters are at hand: it reads the value and leaves the rest if the value fits,
and refuses it otherwise. -/
structure Written (room : Nat) (read : Reader α) (write : List Char → List Char) (fits : Bool)
    (a : α) : Prop where
  starts : ∀ rest, ∃ c tail, write rest = c :: tail ∧ isBlank c = false ∧ c ≠ ']'
  keeps : Keeps write
  reads : ∀ rest, (write rest).length ≤ room →
    read (write rest) = if fits then some (a, rest) else none

namespace Written

variable {read : Reader α} {write : List Char → List Char} {fits : Bool} {a : α}

/-- No value begins with a blank. -/
theorem skip_eq (written : Written room read write fits a) (rest : List Char) :
    skip (write rest) = write rest := by
  obtain ⟨c, tail, begins, solid, _⟩ := written.starts rest
  rw [begins]
  exact List.dropWhile_cons_of_neg (by simp [solid])

theorem length_pos (written : Written room read write fits a) (rest : List Char) :
    0 < (write rest).length := by
  obtain ⟨c, tail, begins, _⟩ := written.starts rest
  rw [begins]
  exact Nat.succ_pos _

/-- Items are read one after another, up to the first that does not fit. -/
theorem items {item : Reader α} {write : α → List Char → List Char} {fits : α → Bool}
    (style : Style) (level : Nat) (rest : List Char) {first : α} {others : List α}
    (each : ∀ x ∈ first :: others, Written room item (write x) (fits x) x) {steps : Nat}
    (within : steps ≤ room) {cs : List Char}
    (atFirst : skip cs = write first (furtherItems style level (others.map write) rest))
    (enough : cs.length ≤ steps) :
    items item steps cs
      = if (first :: others).all fits then some (first :: others, rest) else none := by
  induction others generalizing first steps cs with
  | nil =>
    have here := each first (List.mem_singleton_self _)
    have atHand := length_skip_le cs
    have positive := here.length_pos (furtherItems style level [] rest)
    rw [List.map_nil] at atFirst
    rw [atFirst] at atHand
    obtain ⟨steps, rfl⟩ : ∃ n, steps = n + 1 := ⟨steps - 1, by omega⟩
    rw [Json.items, atFirst, here.reads _ (by omega)]
    cases fit : fits first with
    | false => simp [fit]
    | true =>
      have bracket : skip (furtherItems style level [] rest) = ']' :: rest := skip_lineBreak ..
      simp [fit, bracket]
  | cons second others ih =>
    obtain ⟨here, later⟩ := List.forall_mem_cons.mp each
    have atHand := length_skip_le cs
    have keeps := here.keeps (furtherItems style level ((second :: others).map write) rest)
    have positive := here.length_pos (furtherItems style level ((second :: others).map write) rest)
    rw [atFirst] at atHand
    obtain ⟨steps, rfl⟩ : ∃ n, steps = n + 1 := ⟨steps - 1, by omega⟩
    have comma : furtherItems style level ((second :: others).map write) rest
        = ',' :: style.lineBreak (level + 1)
          (write second (furtherItems style level (others.map write) rest)) := rfl
    rw [comma] at atFirst atHand keeps
    rw [List.length_cons] at keeps
    have next := ih later (Nat.le_of_succ_le within)
      ((skip_lineBreak style (level + 1) _).trans
        ((later second (List.mem_cons_self ..)).skip_eq _)) (by omega)
    rw [Json.items, atFirst, here.reads _ (by omega)]
    cases fit : fits first with
    | false => simp [fit]
    | true =>
      have solid (tail : List Char) : skip (',' :: tail) = ',' :: tail := rfl
      rw [List.all_cons, fit, Bool.true_and]
      simp only [solid, next, if_true, Option.bind_eq_bind, Option.bind_some]
      cases (second :: others).all fits <;> rfl

/-- An array fits if each of its items does. -/
theorem array {item : Reader α} {write : α → List Char → List Char} {fits : α → Bool}
    (style : Style) (level : Nat) {xs : List α}
    (each : ∀ x ∈ xs, Written room item (write x) (fits x) x) :
    Written room (arrayOf item room) (array style level (xs.map write)) (xs.all fits) xs := by
  refine ⟨fun rest => ?_, .array (List.forall_mem_map.mpr fun x member => (each x member).keeps),
    fun rest enough => ?_⟩
  · cases xs <;> exact ⟨_, _, rfl, rfl, by decide⟩
  · cases xs with
    | nil => rfl
    | cons first others =>
      have here := each first (List.mem_cons_self ..)
      have broken := Keeps.lineBreak style (level + 1)
        (write first (furtherItems style level (others.map write) rest))
      simp only [Json.array, List.map_cons, List.length_cons] at enough
      simp only [arrayOf, Json.array, List.map_cons, expect, if_true, Option.bind_eq_bind,
        Option.bind_some, skip_lineBreak, here.skip_eq]
      split
      · next same =>
        obtain ⟨c, tail, begins, _, notBracket⟩ :=
          here.starts (furtherItems style level (others.map write) rest)
        rw [begins] at same
        cases same
        exact absurd rfl notBracket
      · exact items style level rest each (Nat.le_refl room) (here.skip_eq _) (by omega)

/-- An attribute is an array of two strings. -/
theorem attrPair (style : Style) (level : Nat) (attr : String × String) :
    Written room pair (attrPair style level attr) true attr where
  starts _ := ⟨_, _, rfl, rfl, by decide⟩
  keeps := .attrPair style level attr
  reads rest _ := by
    have solid (s : String) (rest : List Char) : skip (quoted s rest) = quoted s rest := rfl
    have comma (rest : List Char) : skip (',' :: rest) = ',' :: rest := rfl
    have bracket (rest : List Char) : skip (']' :: rest) = ']' :: rest := rfl
    simp [pair, Json.attrPair, Json.array, furtherItems, expect, solid, comma, bracket,
      string_quoted]

/-- Where one level is left, only an empty list of attributes fits. -/
theorem attrs (style : Style) (level level' : Nat) (attrs : List (String × String)) (nesting : Nat) :
    Written room (attrsWithin room (nesting + 1))
      (Json.array style level (attrs.map (Json.attrPair style level')))
      (attrs.isEmpty || decide (1 ≤ nesting)) attrs := by
  have all : attrs.all (fun _ => true) = true := List.all_eq_true.mpr fun _ _ => rfl
  have pairs : Written room _ _ _ attrs :=
    array style level fun attr (_ : attr ∈ attrs) => attrPair style level' attr
  rw [all] at pairs
  refine ⟨pairs.starts, pairs.keeps, fun rest enough => ?_⟩
  cases nesting with
  | zero =>
    cases attrs with
    | nil => rfl
    | cons attr attrs =>
      have solid (rest : List Char) :
          skip (Json.attrPair style level' attr rest) = Json.attrPair style level' attr rest := rfl
      simp only [attrsWithin, Json.array, List.map_cons, expect, if_true, Option.bind_eq_bind,
        Option.bind_some, skip_lineBreak, solid]
      rfl
  | succ nesting =>
    have reads := pairs.reads rest enough
    rw [if_pos rfl] at reads
    rw [if_pos (by simp)]
    exact reads

theorem optional (text : Option String) : Written room optionalString (optional text) true text where
  starts _ := by cases text <;> exact ⟨_, _, rfl, rfl, by decide⟩
  keeps := .optional text
  reads rest _ := by
    cases text with
    | none => rfl
    | some text =>
      have begins : quoted text rest = '"' :: (text.toList.flatMap escaped ++ '"' :: rest) := rfl
      rw [Json.optional, optionalString]
      · rw [string_quoted]
        rfl
      · exact fun tail same => nomatch begins.symm.trans same

end Written

theorem skip_optional (text : Option String) (rest : List Char) :
    skip (optional text rest) = optional text rest := by
  cases text <;> rfl

section Members

variable {attrs : Reader (List (String × String))} {children : Reader (List Element)}
  {style : Style} {level : Nat}

/-- One member of an object, and what comes after it. -/
theorem members_eq {steps : Nat} {found : Members} {word : String} {value : List Char}
    (solid : skip value = value) :
    members attrs children (steps + 1) found (key style level word value)
      = (memberValue steps attrs children found word value >>= fun read =>
        match skip read.2 with
        | ',' :: rest => members attrs children steps read.1 rest
        | '\x7d' :: rest => some (read.1, rest)
        | _ => none) := by
  have word' (rest : List Char) : skip (quoted word rest) = quoted word rest := rfl
  have colon (rest : List Char) : skip (':' :: rest) = ':' :: rest := rfl
  have blank : skip (' ' :: value) = skip value := rfl
  cases style <;>
  · simp only [members, key, skip_lineBreak, word', string_quoted, Style.colon, colon, expect,
      if_true, Option.bind_eq_bind, Option.bind_some, blank, solid]
    rfl

/-- The four members of an element are found if its attributes and its children fit. -/
theorem members_written {writeAttrs writeChildren : List Char → List Char} {fits fits' : Bool}
    {attrList : List (String × String)} {childList : List Element}
    (readsAttrs : Written room attrs writeAttrs fits attrList)
    (readsChildren : Written room children writeChildren fits' childList)
    (name : String) (text : Option String) {after rest : List Char}
    (closes : skip after = '\x7d' :: rest)
    (enough : (key style level "name" (quoted name (',' ::
      key style level "attrs" (writeAttrs (',' ::
      key style level "children" (writeChildren (',' ::
      key style level "text" (optional text after)))))))).length ≤ room) :
    members attrs children room ⟨none, none, none, none⟩ (key style level "name" (quoted name (',' ::
      key style level "attrs" (writeAttrs (',' ::
      key style level "children" (writeChildren (',' ::
      key style level "text" (optional text after))))))))
      = if fits && fits' then some (⟨some name, some attrList, some childList, some text⟩, rest)
        else none := by
  have comma (tail : List Char) : skip (',' :: tail) = ',' :: tail := rfl
  generalize fourth : key style level "text" (optional text after) = t at enough ⊢
  generalize third : key style level "children" (writeChildren (',' :: t)) = c at enough ⊢
  generalize second : key style level "attrs" (writeAttrs (',' :: c)) = a at enough ⊢
  have atName : a.length < room :=
    Nat.le_trans (((Keeps.key style level "name").comp (.quoted name)) (',' :: a)) enough
  have atAttrs : (writeAttrs (',' :: c)).length < room :=
    Nat.lt_of_le_of_lt (second ▸ Keeps.key style level "attrs" _) atName
  have atComma : c.length + 1 < room := Nat.lt_of_le_of_lt (readsAttrs.keeps (',' :: c)) atAttrs
  have atChildren : (writeChildren (',' :: t)).length + 1 < room :=
    Nat.lt_of_le_of_lt (Nat.succ_le_succ (third ▸ Keeps.key style level "children" _)) atComma
  have atText : t.length + 2 < room :=
    Nat.lt_of_le_of_lt (Nat.succ_le_succ (readsChildren.keeps (',' :: t))) atChildren
  have atAfter : after.length ≤ t.length :=
    fourth ▸ Nat.le_trans (Keeps.optional text after) (Keeps.key style level "text" _)
  have closing : 0 < after.length := by
    have bracket := length_skip_le after
    rw [closes] at bracket
    exact Nat.lt_of_lt_of_le (Nat.succ_pos _) bracket
  obtain ⟨steps, rfl⟩ : ∃ n, room = n + 4 := ⟨room - 4, by omega⟩
  have readAttrs := readsAttrs.reads (',' :: c) (Nat.le_of_lt atAttrs)
  have readChildren := readsChildren.reads (',' :: t) (by omega)
  have readText : optionalString (optional text after) = some (text, after) :=
    (Written.optional text).reads after (Nat.le_refl _)
  rw [members_eq rfl]
  simp only [memberValue, once, string_quoted, Option.bind_eq_bind, Option.bind_some,
    Option.pure_def, comma]
  rw [← second, members_eq (readsAttrs.skip_eq _)]
  simp only [memberValue, once, readAttrs, Option.bind_eq_bind]
  cases fits with
  | false => rfl
  | true =>
    simp only [if_true, Option.bind_some, Option.pure_def, comma]
    rw [← third, members_eq (readsChildren.skip_eq _)]
    simp only [memberValue, once, readChildren, Option.bind_eq_bind]
    cases fits' with
    | false => rfl
    | true =>
      simp only [if_true, Option.bind_some, Option.pure_def, comma]
      rw [← fourth, members_eq (skip_optional ..)]
      simp only [memberValue, once, readText, closes, Option.bind_eq_bind, Option.bind_some,
        Option.pure_def, if_true, Bool.and_self]

end Members

/-- Elements are written one by one. -/
theorem elements_eq (style : Style) (level : Nat) (xs : List Element) :
    elements style level xs = xs.map (element style level) := by
  induction xs with
  | nil => rfl
  | cons x xs ih => rw [elements, ih, List.map_cons]

/-- An element is written as an object with its name, attributes, children and text. -/
theorem element_mk (style : Style) (level : Nat) (name : String) (attrs : List (String × String))
    (children : List Element) (text : Option String) (rest : List Char) :
    element style level ⟨name, attrs, children, text⟩ rest
      = '\x7b' :: key style (level + 1) "name" (quoted name (',' ::
        key style (level + 1) "attrs"
          (array style (level + 1) (attrs.map (attrPair style (level + 1 + 1))) (',' ::
        key style (level + 1) "children"
          (array style (level + 1) (children.map (element style (level + 1 + 1))) (',' ::
        key style (level + 1) "text"
          (optional text (style.lineBreak level ('\x7d' :: rest))))))))) := by
  rw [element, elements_eq]

/-- Children are nested no deeper than a bound if the deepest of them is not. -/
theorem all_nesting_le {children : List Element} {n : Nat} :
    children.all (fun y => decide (y.nesting ≤ n)) = decide (Element.nestingOfAll children ≤ n) := by
  induction children with
  | nil => simp [Element.nestingOfAll]
  | cons y rest ih => simp [Element.nestingOfAll, ih]

/-- An element is read where no more levels are left than are nested in it, and refused otherwise. -/
theorem Written.element (style : Style) (level : Nat) (x : Element) (nesting : Nat) :
    Written room (elementWithin room nesting) (element style level x)
      (decide (x.nesting ≤ nesting)) x := by
  induction nesting using Nat.twoStepInduction generalizing level x with
  | zero | one =>
    obtain ⟨name, attrs, children, text⟩ := x
    refine ⟨fun _ => ⟨_, _, rfl, rfl, by decide⟩, .element style level _, fun rest _ => ?_⟩
    rw [elementWithin, if_neg (by simp [Element.nesting])]
  | more nesting ih _ =>
    obtain ⟨name, attrs, children, text⟩ := x
    refine ⟨fun _ => ⟨_, _, rfl, rfl, by decide⟩, .element style level _, fun rest enough => ?_⟩
    have pairs : Written room _ _ _ attrs :=
      Written.attrs style (level + 1) (level + 1 + 1) attrs nesting
    have parts : Written room _ _ _ children :=
      array style (level + 1) fun y (_ : y ∈ children) => ih (level + 1 + 1) y
    rw [all_nesting_le] at parts
    have fits : decide (Element.nesting ⟨name, attrs, children, text⟩ ≤ nesting + 2)
        = ((attrs.isEmpty || decide (1 ≤ nesting))
          && decide (Element.nestingOfAll children ≤ nesting)) := by
      rw [Element.nesting, Bool.eq_iff_iff]
      cases attrs.isEmpty <;> simp <;> omega
    rw [element_mk] at enough ⊢
    rw [elementWithin, members_written pairs parts name text (skip_lineBreak ..)
      (Nat.le_of_succ_le enough), fits]
    cases (attrs.isEmpty || decide (1 ≤ nesting))
      && decide (Element.nestingOfAll children ≤ nesting) <;> rfl

/-- A text in either style is read back if no more levels are nested in it than may be, and refused
otherwise. -/
theorem read?_write (style : Style) (x : Element) :
    read? (write style x) = if x.nesting ≤ maxNesting then some x else none := by
  have text : (write style x).toList = element style 0 x [] := String.toList_ofList
  have written : Written (write style x).length _ _ _ x := .element style 0 x maxNesting
  have reads := written.reads [] (by rw [← text, String.length_toList])
  simp only [decide_eq_true_eq] at reads
  rw [read?, text, written.skip_eq, reads]
  by_cases fits : x.nesting ≤ maxNesting
  · simp only [if_pos fits]
    rfl
  · simp only [if_neg fits]
    rfl

end Json

end SurfaceTree
