import SurfaceTree.Proofs.Hashed.Node
import SurfaceTree.Proofs.Traversal.Bare

namespace SurfaceTree

variable {V R : Type} {depth : Nat} {k : Kind}

/-- Leaves that differ at most in how the tables in them hold what they bind. -/
inductive Leaf.Alike : Leaf (Hashed.Expr R depth) R → Leaf (Hashed.Expr R depth) R → Prop where
  | exp {e e' : Hashed.Expr R depth} (alike : Hashed.Expr.Alike depth e e') : Alike (.exp e) (.exp e')
  | ref (r : R) : Alike (.ref r) (.ref r)

namespace Hashed

/-- Leaves that list the same are alike. -/
theorem leaf_alike_of_map_eq {leaf leaf' : Leaf (Expr R depth) R}
    (same : leaf.map (Expr.plain depth) id = leaf'.map (Expr.plain depth) id) : leaf.Alike leaf' := by
  cases leaf with
  | exp e =>
    cases leaf' with
    | exp e' => exact .exp ((Expr.plain_eq_iff depth e e').mp (Leaf.exp.inj same))
    | ref r' => cases same
  | ref r =>
    cases leaf' with
    | exp e' => cases same
    | ref r' =>
      cases same
      exact .ref r

namespace Node

variable [Reference R]

/-- Every walk over a node comes to what the walk over the listed tree comes to. -/
structure Listed (k : Kind) (n : Node R depth k) : Prop where
  compare : ∀ other, compare k n other = SurfaceTree.Node.compare k (plain k n) (plain k other)
  words : words k n = SurfaceTree.Node.words k (plain k n)
  fingerprint : fingerprint k n = SurfaceTree.Node.fingerprint k (plain k n)
  encode : encode k n = SurfaceTree.Node.encode k (plain k n)
  leaves : (leaves k n).map (Leaf.map (Expr.plain depth) id) = k.leaves (plain k n)
  traverse : ∀ {m : Type → Type} [Monad m] [LawfulMonad m] {S : Type}
    (f : Expr R depth → m (Expr S depth)) (f' : SurfaceTree.Expr R → m (SurfaceTree.Expr S))
    (g : R → m S), (∀ e, Expr.plain depth <$> f e = f' (e.plain depth)) →
      plain k <$> traverse k f g n = k.traverse f' g (plain k n)
  refs : refs k n = SurfaceTree.Node.refs k (plain k n)
  traverseRefs : ∀ {m : Type → Type} [Monad m] [LawfulMonad m] {S : Type} (g : R → m S),
    plain k <$> traverseRefs k g n = SurfaceTree.Node.traverseRefs g k (plain k n)
  doc? : ∀ look, doc? k look n = SurfaceTree.Node.doc? look k (plain k n)
  format? : ∀ look config, format? k look config n = SurfaceTree.Node.format? look config k (plain k n)

/-- No walk over nodes tells two nodes apart. They compare as equal, and alike with any other node,
have the same fingerprint, element, references and text, show alike leaves in the same order, and
come to the same under a traversal that treats alike expressions alike. -/
structure Indistinguishable (k : Kind) (a b : Node R depth k) : Prop where
  equal : compare k a b = .eq
  compare : ∀ other, compare k a other = compare k b other ∧ compare k other a = compare k other b
  words : words k a = words k b
  fingerprint : fingerprint k a = fingerprint k b
  encode : encode k a = encode k b
  leaves : List.Forall₂ Leaf.Alike (leaves k a) (leaves k b)
  traverse : ∀ {m : Type → Type} [Monad m] [LawfulMonad m] {S : Type}
    (f : Expr R depth → m (Expr S depth)) (g : R → m S),
    (∀ e e', Expr.Alike depth e e' → Expr.plain depth <$> f e = Expr.plain depth <$> f e') →
      plain k <$> traverse k f g a = plain k <$> traverse k f g b
  refs : refs k a = refs k b
  traverseRefs : ∀ {m : Type → Type} [Monad m] [LawfulMonad m] {S : Type} (g : R → m S),
    plain k <$> traverseRefs k g a = plain k <$> traverseRefs k g b
  doc? : ∀ look, doc? k look a = doc? k look b
  format? : ∀ look config, format? k look config a = format? k look config b

variable [LawfulReference R]

/-- All that is made of a node is what is made of its listed form. -/
theorem listed (n : Node R depth k) : Listed k n where
  compare := compare_plain_of_exps Expr.compare_plain n
  words := words_plain_of_exps Expr.words_plain n
  fingerprint := congrArg Fingerprint.ofWords (words_plain_of_exps Expr.words_plain n)
  encode := encode_plain_of_exps Expr.encode_plain n
  leaves := (leaves_plain n).symm
  traverse _ _ g agree := traverse_plain agree g n
  refs := refs_plain_of_exps Expr.refs_plain n
  traverseRefs g := traverse_plain (Expr.traverseRefs_plain g) g n
  doc? look := doc?_plain_of_exps (Expr.doc_plain look) n
  format? look config :=
    congrArg (Option.map (Doc.render config)) (doc?_plain_of_exps (Expr.doc_plain look) n)

/-- Nodes whose tables bind the same, at every depth, cannot be told apart. -/
theorem indistinguishable_of_alike {a b : Node R depth k} (alike : Alike k a b) :
    Indistinguishable k a b where
  equal := by
    rw [(listed a).compare, (plain_eq_iff k a b).mpr alike, SurfaceTree.Node.compare_eq_key,
      Key.compare_self]
  compare other := by
    rw [(listed a).compare, (listed b).compare, (listed other).compare, (listed other).compare,
      (plain_eq_iff k a b).mpr alike]
    exact ⟨rfl, rfl⟩
  words := by rw [(listed a).words, (listed b).words, (plain_eq_iff k a b).mpr alike]
  fingerprint := by
    rw [(listed a).fingerprint, (listed b).fingerprint, (plain_eq_iff k a b).mpr alike]
  encode := by rw [(listed a).encode, (listed b).encode, (plain_eq_iff k a b).mpr alike]
  leaves := by
    have same := congrArg k.leaves ((plain_eq_iff k a b).mpr alike)
    rw [← (listed a).leaves, ← (listed b).leaves, ← List.forall₂_eq_eq_eq,
      List.forall₂_map_left_iff, List.forall₂_map_right_iff] at same
    exact same.imp fun _ _ => leaf_alike_of_map_eq
  traverse {m} _ _ {S} f g respects := by
    have : Nonempty (m (SurfaceTree.Expr S)) := ⟨pure (.mk (.tuple .dummy []))⟩
    obtain ⟨f', agree⟩ := (Function.factorsThrough_iff fun e => Expr.plain depth <$> f e).mp
      fun e e' same => respects e e' ((Expr.plain_eq_iff depth e e').mp same)
    rw [(listed a).traverse f f' g (congrFun agree), (listed b).traverse f f' g (congrFun agree),
      (plain_eq_iff k a b).mpr alike]
  refs := by rw [(listed a).refs, (listed b).refs, (plain_eq_iff k a b).mpr alike]
  traverseRefs g := by
    rw [(listed a).traverseRefs, (listed b).traverseRefs, (plain_eq_iff k a b).mpr alike]
  doc? look := by rw [(listed a).doc?, (listed b).doc?, (plain_eq_iff k a b).mpr alike]
  format? look config := by
    rw [(listed a).format?, (listed b).format?, (plain_eq_iff k a b).mpr alike]

end Node

/-- Patterns whose tables bind the same bind the same names in the same order. -/
theorem Pattern.binders_eq_of_alike {p q : Pattern (Expr R depth) R depth}
    (alike : Pattern.Alike (Expr.Alike depth) depth p q) :
    Pattern.binders depth p = Pattern.binders depth q := by
  have same : (p.plain depth).map (Expr.plain depth) id = (q.plain depth).map (Expr.plain depth) id :=
    (Pattern.plain_eq_iff (Expr.plain_eq_iff depth) (fun _ _ => Iff.rfl) depth p q).mpr alike
  rw [Pattern.binders_plain, Pattern.binders_plain, ← SurfaceTree.Pattern.binders_bare_map _ id,
    same, SurfaceTree.Pattern.binders_bare_map]

end Hashed

namespace HashTable

/-- Two tables that bind every name to the same value are listed alike, whatever insertions they
come from and in whatever order they have their bindings. Their values are taken in the order of
the listing. In the same place of two nodes, at any depth, they make for nodes that are alike, and
these are listed as one tree. Every walk over a node comes to what the walk over the listed tree
comes to, so no walk tells alike nodes apart. -/
theorem history_forgotten {h h' : History V} {t t' : HashTable V}
    (reached : Reached h.insertions t) (reached' : Reached h'.insertions t')
    (same : ∀ name, t.get? name = t'.get? name) :
    (t.sorted = t'.sorted ∧ t.keys = t'.keys ∧ t.size = t'.size ∧
      ∀ value, t.text value = t'.text value) ∧
    (t.toMap = h.run ∧ t'.toMap = h'.run ∧ h.run = h'.run) ∧
    (∀ {m : Type → Type} [Monad m] [LawfulMonad m] {W : Type} (f : V → m W),
      toMap <$> t.traverse f = h.run.traverse f ∧ toMap <$> t'.traverse f = h.run.traverse f) ∧
    (∀ alike : V → V → Prop, (∀ v, alike v v) → t.Alike alike t') ∧
    ∀ (p : Phase) (depth : Nat),
      (∀ (k : Kind) (a : Hashed.Node p.Ref depth k), Hashed.Node.Listed k a ∧
        ∀ b : Hashed.Node p.Ref depth k,
          (Hashed.Node.Alike k a b ↔ Hashed.Node.plain k a = Hashed.Node.plain k b) ∧
          (Hashed.Node.Alike k a b → Hashed.Node.Indistinguishable k a b)) ∧
      ∀ a : Hashed.Pattern (Hashed.Expr p.Ref depth) p.Ref depth,
        Hashed.Pattern.binders depth a = (a.plain depth).binders ∧
        ∀ b, Hashed.Pattern.Alike (Hashed.Expr.Alike depth) depth a b →
          Hashed.Pattern.binders depth a = Hashed.Pattern.binders depth b := by
  have holds : t.Holds h.run := h.run_eq ▸ reached.holds
  have holds' : t'.Holds h'.run := h'.run_eq ▸ reached'.holds
  have run : h.run = h'.run := NameMap.ext_get? fun name => by
    rw [← holds.get?_eq, ← holds'.get?_eq, same]
  have sorted : t.sorted = t'.sorted := by rw [holds.sorted_eq, holds'.sorted_eq, run]
  refine ⟨⟨sorted, ?_, ?_, fun value => by rw [text, text, sorted]⟩,
    ⟨holds.toMap_eq, holds'.toMap_eq, run⟩, fun f => ⟨?_, ?_⟩, fun alike refl name => ?_,
    fun p depth => ⟨fun k a => ⟨a.listed, fun b => ⟨(a.plain_eq_iff k b).symm, ?_⟩⟩, fun a => ?_⟩⟩
  · rw [holds.keys_eq, holds'.keys_eq, run]
  · rw [holds.size_eq, holds'.size_eq, run]
  · rw [toMap_traverse, holds.toMap_eq]
  · rw [toMap_traverse, holds'.toMap_eq, run]
  · rw [same name]
    cases t'.get? name with
    | none => exact .none
    | some v => exact .some (refl v)
  · exact Hashed.Node.indistinguishable_of_alike
  · exact ⟨a.binders_plain depth, fun b => Hashed.Pattern.binders_eq_of_alike⟩

/-- A record of two fields, bound one by one in descending order, and collected in ascending order
with one of them bound anew afterwards. It stands under a `match` whose case splits on two names,
again in either order. Only the native orders of the tables tell the two nodes apart. -/
theorem history_forgotten_record :
    let value (n : UInt32) : Hashed.Expr Name 1 := .reference .dummy ⟨n⟩
    let part (n : UInt32) : Hashed.Pattern (Hashed.Expr Name 2) Name 1 := .bind .dummy ⟨n⟩
    let t : HashTable (Hashed.Expr Name 1) := ⟨[(⟨1⟩, value 7), (⟨2⟩, value 8)], by simp⟩
    let t' : HashTable (Hashed.Expr Name 1) := ⟨[(⟨2⟩, value 8), (⟨1⟩, value 7)], by simp⟩
    let parts : HashTable (Hashed.Pattern (Hashed.Expr Name 2) Name 1) :=
      ⟨[(⟨3⟩, part 5), (⟨4⟩, part 6)], by simp⟩
    let parts' : HashTable (Hashed.Pattern (Hashed.Expr Name 2) Name 1) :=
      ⟨[(⟨4⟩, part 6), (⟨3⟩, part 5)], by simp⟩
    let node (t : HashTable (Hashed.Expr Name 1))
        (parts : HashTable (Hashed.Pattern (Hashed.Expr Name 2) Name 1)) : Hashed.Node Name 2 .expr :=
      .matching .dummy (.record .dummy t)
        [⟨.dummy, .split .dummy parts true, .reference .dummy ⟨9⟩⟩]
    t.bindings.map Prod.fst ≠ t'.bindings.map Prod.fst ∧
      Hashed.Node.Indistinguishable .expr (node t parts) (node t' parts') := by
  intro value part t t' parts parts' node
  let h : History (Hashed.Expr Name 1) := ⟨[], [.insert ⟨2⟩ (value 8), .tryInsert ⟨1⟩ (value 7)]⟩
  let h' : History (Hashed.Expr Name 1) :=
    ⟨[(⟨1⟩, value 9), (⟨2⟩, value 8)], [.insert ⟨1⟩ (value 7)]⟩
  have one : Reached [.insert ⟨2⟩ (value 8)] ⟨[(⟨2⟩, value 8)], by simp⟩ := .insert .empty (.refl _)
  have two : Reached h.insertions t := .insert one (.refl _)
  have one' : Reached [.insert ⟨1⟩ (value 9)] ⟨[(⟨1⟩, value 9)], by simp⟩ :=
    .insert .empty (.refl _)
  have two' : Reached [.insert ⟨1⟩ (value 9), .insert ⟨2⟩ (value 8)]
      ⟨[(⟨1⟩, value 9), (⟨2⟩, value 8)], by simp⟩ := .insert one' (.swap ..)
  have three' : Reached h'.insertions t' := .insert two' (.swap ..)
  let collected : History (Hashed.Pattern (Hashed.Expr Name 2) Name 1) :=
    ⟨[(⟨3⟩, part 5), (⟨4⟩, part 6)], []⟩
  have onePart : Reached [.insert ⟨3⟩ (part 5)] ⟨[(⟨3⟩, part 5)], by simp⟩ := .insert .empty (.refl _)
  have twoParts : Reached collected.insertions parts := .insert onePart (.swap ..)
  have twoParts' : Reached collected.insertions parts' := .insert onePart (.refl _)
  obtain ⟨-, -, -, fields, nodes⟩ := history_forgotten two three' (get?_of_perm (.swap ..))
  obtain ⟨-, -, -, split, -⟩ := history_forgotten twoParts twoParts' (get?_of_perm (.swap ..))
  refine ⟨by decide, ((nodes .parsed 2).1 .expr (node t parts)).2 (node t' parts') |>.2 ?_⟩
  have record := fields (Hashed.Expr.Alike 1) (Hashed.Expr.alike_refl 1)
  have binds := split (Hashed.Pattern.Alike (Hashed.Expr.Alike 2) 1) (Hashed.Pattern.alike_refl 1)
  exact ⟨rfl, ⟨rfl, record⟩, .cons ⟨rfl, ⟨rfl, binds, rfl⟩, rfl, rfl⟩ .nil⟩

end HashTable

end SurfaceTree
