import Mathlib.Algebra.Order.Ring.Nat
import SurfaceTree.Codec.Bytes
import SurfaceTree.Proofs.Codec.Element

namespace SurfaceTree

/-- An element each of whose lists and texts has a length that eight bytes can hold, as every one
has that fits into a memory of 64-bit addresses. -/
inductive Element.Addressable : Element → Prop where
  | mk {name : String} {attrs : List (String × String)} {children : List Element}
      {text : Option String} (shortName : name.utf8ByteSize < UInt64.size)
      (fewAttrs : attrs.length < UInt64.size)
      (shortAttrs : ∀ attr ∈ attrs,
        attr.1.utf8ByteSize < UInt64.size ∧ attr.2.utf8ByteSize < UInt64.size)
      (fewChildren : children.length < UInt64.size) (each : ∀ y ∈ children, Addressable y)
      (shortText : ∀ s ∈ text, s.utf8ByteSize < UInt64.size) :
      Addressable ⟨name, attrs, children, text⟩

namespace Bytes

variable {α β : Type} {room room' : Nat}

/-- What a reader makes of the bytes written for a value as long as fewer than `room` bytes are at
hand. In front of any rest it reads the value and leaves the rest; of a part of the bytes it says
that they end too early. -/
structure Delimits (room : Nat) (read : Reader α) (written : List UInt8) (a : α) : Prop where
  whole : ∀ rest, (written ++ rest).length < room → read (written ++ rest) = .ok (a, rest)
  cut : ∀ part missing, written = part ++ missing → missing ≠ [] → part.length < room →
    read part = .error .unexpectedEnd

namespace Delimits

/-- A reader with less room also stops where the value ends. -/
theorem mono {read : Reader α} {written : List UInt8} {a : α} (reads : Delimits room read written a)
    (fewer : room' ≤ room) : Delimits room' read written a where
  whole rest short := reads.whole rest (Nat.lt_of_lt_of_le short fewer)
  cut part missing split some short :=
    reads.cut part missing split some (Nat.lt_of_lt_of_le short fewer)

/-- Nothing is written for a value that is known. -/
theorem known (a : α) : Delimits room (fun bs => .ok (a, bs)) [] a where
  whole _ _ := rfl
  cut _ _ split some _ := absurd (List.nil_eq_append_iff.mp split).2 some

/-- One value after another. The second is read where the bytes of the first are gone. -/
theorem andThen {first : Reader α} {next : α × List UInt8 → Except BytesError (β × List UInt8)}
    {written written' : List UInt8} {a : α} {b : β} (head : Delimits room first written a)
    (tail : Delimits room' (fun rest => next (a, rest)) written' b)
    (shrinks : room ≤ room' + written.length) :
    Delimits room (fun bs => first bs >>= next) (written ++ written') b where
  whole rest short := by
    rw [List.append_assoc] at short ⊢
    have later : (written' ++ rest).length < room' := by
      rw [List.length_append] at short
      omega
    simp only [head.whole _ short, ok_bind, tail.whole rest later]
  cut part missing split some short := by
    have behind (begun : List UInt8) (atCut : part = written ++ begun)
        (rest : written' = begun ++ missing) : (first part >>= next) = .error .unexpectedEnd := by
      subst atCut
      have later : begun.length < room' := by
        rw [List.length_append] at short
        omega
      simp only [head.whole _ short, ok_bind, tail.cut begun missing rest some later]
    rcases List.append_eq_append_iff.mp split with ⟨begun, atCut, rest⟩ | ⟨left, within, rest⟩
    · exact behind begun atCut rest
    · by_cases done : left = []
      · subst done
        exact behind [] (by simpa using within.symm) (by simpa using rest.symm)
      · simp only [head.cut part left within done short, error_bind]

/-- A value that needs no further bytes once another one is read. -/
theorem andGive {first : Reader α} {next : α × List UInt8 → Except BytesError (β × List UInt8)}
    {written : List UInt8} {a : α} {b : β} (head : Delimits room first written a)
    (gives : ∀ rest, next (a, rest) = .ok (b, rest)) :
    Delimits room (fun bs => first bs >>= next) written b := by
  have nothing : Delimits room (fun rest => next (a, rest)) [] b :=
    ⟨fun rest _ => gives rest, fun _ _ split some _ =>
      absurd (List.nil_eq_append_iff.mp split).2 some⟩
  have both := head.andThen nothing (Nat.le_add_right ..)
  rwa [List.append_nil] at both

end Delimits

theorem length_ofNat (count n : Nat) : (ofNat count n).length = count := by
  induction count generalizing n with
  | zero => rfl
  | succ count ih => rw [ofNat, List.length_cons, ih]

/-- A number is read back from the bytes that it was written to. -/
theorem toNat_ofNat {count n : Nat} (fits : n < 256 ^ count) : toNat (ofNat count n) = n := by
  induction count generalizing n with
  | zero =>
    rw [Nat.pow_zero] at fits
    exact (Nat.lt_one_iff.mp fits).symm
  | succ count ih =>
    have smaller : n / 256 < 256 ^ count := by
      rw [Nat.pow_succ] at fits
      omega
    have digit : (UInt8.ofNat n).toNat = n % 256 := rfl
    rw [ofNat, toNat, ih smaller, digit]
    omega

theorem take_append (bs rest : List UInt8) : take bs.length (bs ++ rest) = .ok (bs, rest) := by
  induction bs with
  | nil => rfl
  | cons b bs ih => simp only [List.length_cons, List.cons_append, take, ih, ok_bind, pure_eq_ok]

/-- A reader that is given too few bytes says that they end too early. -/
theorem take_part {part missing : List UInt8} (some : missing ≠ []) :
    take (part ++ missing).length part = .error .unexpectedEnd := by
  induction part with
  | nil =>
    obtain ⟨b, rest, rfl⟩ := List.exists_cons_of_ne_nil some
    rfl
  | cons b part ih => simp only [List.cons_append, List.length_cons, take, ih, error_bind]

theorem toList_loop (bs : ByteArray) (i : Nat) (before : List UInt8) :
    ByteArray.toList.loop bs i before = before.reverse ++ bs.data.toList.drop i := by
  rw [ByteArray.toList.loop.eq_def]
  split
  · next within =>
    have inBounds : i < bs.data.toList.length := within
    have byte : bs.get! i = bs.data.toList[i] := getElem!_pos bs.data i within
    rw [toList_loop bs (i + 1), byte, List.reverse_cons, List.append_assoc, List.singleton_append,
      ← List.drop_eq_getElem_cons inBounds]
  · next beyond =>
    rw [List.drop_eq_nil_of_le (Nat.le_of_not_lt beyond), List.append_nil]
termination_by bs.size - i

theorem toList_eq (bs : ByteArray) : bs.toList = bs.data.toList := toList_loop bs 0 []

theorem length_toUTF8 (s : String) : s.toUTF8.toList.length = s.utf8ByteSize := by
  rw [toList_eq]
  rfl

/-- A text is read back from its own bytes. -/
theorem fromUTF8?_toUTF8 (s : String) : String.fromUTF8? ⟨s.toUTF8.toList.toArray⟩ = some s := by
  rw [toList_eq]
  exact dif_pos s.isValidUTF8

namespace Delimits

theorem take (bs : List UInt8) : Delimits room (take bs.length) bs bs where
  whole rest _ := take_append bs rest
  cut _ _ split some _ := split ▸ take_part some

/-- A length is read back from its eight bytes. -/
theorem length {n : Nat} (fits : n < UInt64.size) : Delimits room length (ofLength n) n := by
  have digits : Delimits room (Bytes.take 8) (ofLength n) (ofLength n) := by
    have exact : Delimits room _ _ _ := take (ofLength n)
    rwa [ofLength, length_ofNat] at exact
  have value : toNat (ofLength n) = n := toNat_ofNat fits
  exact digits.andGive fun rest => by simp only [value, pure_eq_ok]

/-- A text is read back from its length and its bytes. -/
theorem string {s : String} (short : s.utf8ByteSize < UInt64.size) :
    Delimits room string (ofString s) s := by
  have text : Delimits room (Bytes.take s.utf8ByteSize) s.toUTF8.toList s.toUTF8.toList :=
    length_toUTF8 s ▸ take s.toUTF8.toList
  exact (length short).andThen
    (text.andGive fun rest => by simp only [fromUTF8?_toUTF8, pure_eq_ok]) (Nat.le_add_right ..)

/-- An attribute is read back from its two texts. -/
theorem attr {attr : String × String} (key : attr.1.utf8ByteSize < UInt64.size)
    (value : attr.2.utf8ByteSize < UInt64.size) :
    Delimits room Bytes.attr (ofAttr attr) attr :=
  (string key).andThen ((string value).andGive fun _ => rfl) (Nat.le_add_right ..)

/-- An optional text is read back from its flag and what follows. -/
theorem option {text : Option String} (short : ∀ s ∈ text, s.utf8ByteSize < UInt64.size) :
    Delimits room option (ofOption text) text := by
  cases text with
  | none =>
    refine ⟨fun _ _ => rfl, fun part missing split some _ => ?_⟩
    cases part with
    | nil => rfl
    | cons b part => exact absurd (List.append_eq_nil_iff.mp (List.cons.inj split).2.symm).2 some
  | some s =>
    have after : Delimits room (fun bs => Bytes.string bs >>= fun p => .ok (some p.1, p.2))
        (ofString s) (some s) := (string (short s rfl)).andGive fun _ => rfl
    refine ⟨fun rest enough => ?_, fun part missing split some enough => ?_⟩
    · exact after.whole rest (Nat.lt_of_succ_lt enough)
    · cases part with
      | nil => rfl
      | cons b part =>
        obtain ⟨rfl, later⟩ := List.cons.inj split
        exact after.cut part missing later some (Nat.lt_of_succ_lt enough)

/-- Items of which each takes at least a byte. -/
theorem items {item : Reader α} {write : α → List UInt8} {xs : List α}
    (each : ∀ x ∈ xs, Delimits room item (write x) x) (taken : ∀ x ∈ xs, write x ≠ [])
    (within : room' ≤ room) :
    Delimits room' (items item room' xs.length) (xs.flatMap write) xs := by
  induction room' generalizing xs with
  | zero => exact ⟨fun _ none => absurd none (Nat.not_lt_zero _),
      fun _ _ _ _ none => absurd none (Nat.not_lt_zero _)⟩
  | succ room' ih =>
    cases xs with
    | nil => exact known []
    | cons x rest =>
      obtain ⟨first, others⟩ := List.forall_mem_cons.mp each
      obtain ⟨takenFirst, takenLater⟩ := List.forall_mem_cons.mp taken
      have positive : 0 < (write x).length := List.length_pos_iff.mpr takenFirst
      have later := ih others takenLater (Nat.le_of_succ_le within)
      exact (first.mono within).andThen (later.andGive fun _ => rfl) (by omega)

/-- A list is read back from its length and its items if each of them is. -/
theorem listOf {item : Reader α} {write : α → List UInt8} {xs : List α}
    (few : xs.length < UInt64.size) (each : ∀ x ∈ xs, Delimits room item (write x) x)
    (taken : ∀ x ∈ xs, write x ≠ []) :
    Delimits room (listOf item room) (ofLength xs.length ++ xs.flatMap write) xs :=
  (length few).andThen (items each taken (Nat.le_refl room)) (Nat.le_add_right ..)

end Delimits

theorem ofString_ne_nil (s : String) : ofString s ≠ [] := fun nothing =>
  nomatch (List.append_eq_nil_iff.mp nothing).1

theorem ofAttr_ne_nil (attr : String × String) : ofAttr attr ≠ [] := fun nothing =>
  ofString_ne_nil attr.1 (List.append_eq_nil_iff.mp nothing).1

mutual
/-- Writing in front of something is writing and then putting that behind it. -/
theorem writeBefore_eq (x : Element) (rest : List UInt8) : writeBefore x rest = write x ++ rest := by
  obtain ⟨name, attrs, children, text⟩ := x
  simp only [write, writeBefore, writeAllBefore_eq children, List.append_assoc, List.append_nil]

theorem writeAllBefore_eq (xs : List Element) (rest : List UInt8) :
    writeAllBefore xs rest = xs.flatMap write ++ rest := by
  cases xs with
  | nil => rfl
  | cons x xs =>
    rw [writeAllBefore, writeBefore_eq x, writeAllBefore_eq xs, List.flatMap_cons,
      List.append_assoc]
end

/-- An element is written as its name, its attributes, its children and its text. -/
theorem write_mk (name : String) (attrs : List (String × String)) (children : List Element)
    (text : Option String) :
    write ⟨name, attrs, children, text⟩
      = ofString name ++ ((ofLength attrs.length ++ attrs.flatMap ofAttr)
        ++ ((ofLength children.length ++ children.flatMap write) ++ ofOption text)) := by
  simp only [write, writeBefore, writeAllBefore_eq, List.append_assoc, List.append_nil]

theorem write_ne_nil (x : Element) : write x ≠ [] := by
  obtain ⟨name, attrs, children, text⟩ := x
  rw [write_mk]
  exact fun nothing => ofString_ne_nil name (List.append_eq_nil_iff.mp nothing).1

/-- An element is read back from what was written for it, whatever follows. -/
theorem Delimits.element {x : Element} (fits : x.Addressable) :
    Delimits room (elementWithin room) (write x) x := by
  induction room generalizing x with
  | zero => exact ⟨fun _ none => absurd none (Nat.not_lt_zero _),
      fun _ _ _ _ none => absurd none (Nat.not_lt_zero _)⟩
  | succ room ih =>
    obtain ⟨shortName, fewAttrs, shortAttrs, fewChildren, each, shortText⟩ := fits
    rename_i name attrs children text
    have positive : 0 < (ofString name).length := List.length_pos_iff.mpr (ofString_ne_nil name)
    have readAttrs : Delimits room (Bytes.listOf Bytes.attr room) _ attrs :=
      listOf fewAttrs
        (fun pair member => attr (shortAttrs pair member).1 (shortAttrs pair member).2)
        fun pair _ => ofAttr_ne_nil pair
    have readChildren : Delimits room (Bytes.listOf (elementWithin room) room) _ children :=
      listOf fewChildren (fun y member => ih (each y member)) fun y _ => write_ne_nil y
    rw [write_mk]
    exact (string shortName).andThen (readAttrs.andThen (readChildren.andThen
      ((option shortText).andGive fun _ => rfl) (Nat.le_add_right ..)) (Nat.le_add_right ..))
      (by omega)

/-- An element is read off the front of whatever follows it. -/
theorem read_write_append {x : Element} (fits : x.Addressable) (rest : List UInt8) :
    read (write x ++ rest) = .ok x := by
  rw [read, (Delimits.element fits).whole rest (Nat.lt_succ_self _)]
  rfl

/-- Part of an element is too little. -/
theorem read_part {x : Element} (fits : x.Addressable) {part missing : List UInt8}
    (split : write x = part ++ missing) (some : missing ≠ []) :
    read part = .error .unexpectedEnd := by
  rw [read, (Delimits.element fits).cut part missing split some (Nat.lt_succ_self _)]
  rfl

end Bytes

end SurfaceTree
