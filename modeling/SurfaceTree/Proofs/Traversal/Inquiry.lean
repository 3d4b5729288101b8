import SurfaceTree.Proofs.Traversal.Natural

namespace SurfaceTree

variable {m : Type → Type} [Monad m] {Q : Type} {A : Q → Type} {α β : Type}

/-- An answer to every question of a list. -/
inductive Answers (A : Q → Type) : List Q → Type where
  | nil : Answers A []
  | cons {q : Q} {rest : List Q} (answer : A q) (others : Answers A rest) : Answers A (q :: rest)

/-- Answers the questions of a list one after another. -/
def answerAll (answer : (q : Q) → m (A q)) : (qs : List Q) → m (Answers A qs)
  | [] => pure .nil
  | q :: rest => do return .cons (← answer q) (← answerAll answer rest)

namespace Answers

/-- The answers, each with its question made into a value. -/
def toList (value : (q : Q) → A q → β) : {qs : List Q} → Answers A qs → List β
  | _, .nil => []
  | q :: _, .cons answer others => value q answer :: others.toList value

/-- The answers that a function gives. -/
def ofFun (answer : (q : Q) → A q) : (qs : List Q) → Answers A qs
  | [] => .nil
  | q :: rest => .cons (answer q) (ofFun answer rest)

theorem ofFun_congr {answer answer' : (q : Q) → A q} {qs : List Q}
    (same : ∀ q ∈ qs, answer q = answer' q) : ofFun answer qs = ofFun answer' qs := by
  induction qs with
  | nil => rfl
  | cons q rest ih =>
    obtain ⟨first, others⟩ := List.forall_mem_cons.mp same
    rw [ofFun, ofFun, first, ih others]

end Answers

theorem Translation.run_answerAll {m' : Type → Type} [Monad m'] (t : Translation m m')
    (answer : (q : Q) → m (A q)) (qs : List Q) :
    t.run (answerAll answer qs) = answerAll (fun q => t.run (answer q)) qs := by
  induction qs with
  | nil => exact t.run_pure _
  | cons q rest ih => simp only [answerAll, t.run_bind, t.run_pure, ih]

section AnswerAll

variable [LawfulMonad m] (answer : (q : Q) → m (A q))

theorem toList_answerAll (value : (q : Q) → A q → β) (qs : List Q) :
    Answers.toList value <$> answerAll answer qs = qs.mapM fun q => value q <$> answer q := by
  induction qs with
  | nil => simp only [answerAll, Answers.toList, List.mapM_nil, map_pure]
  | cons q rest ih =>
    simp only [answerAll, List.mapM_cons, ← ih, Answers.toList, map_bind, map_pure, bind_map_left]

theorem answerAll_pure (answer : (q : Q) → A q) (qs : List Q) :
    answerAll (fun q => (pure (answer q) : m (A q))) qs = pure (.ofFun answer qs) := by
  induction qs with
  | nil => rfl
  | cons q rest ih => simp only [answerAll, ih, pure_bind, Answers.ofFun]

/-- If answers are asked for and then given by a function instead, only the effects remain. -/
theorem answerAll_discard {B : Q → Type} (given : (q : Q) → B q) (qs : List Q) :
    answerAll (fun q => (fun _ => given q) <$> answer q) qs
      = (fun _ => Answers.ofFun given qs) <$> answerAll answer qs := by
  induction qs with
  | nil => simp only [answerAll, Answers.ofFun, map_pure]
  | cons q rest ih =>
    simp only [answerAll, ih, Answers.ofFun, map_bind, map_pure, bind_map_left]

end AnswerAll

/-- Questions whose answers are taken from a supply that holds them in the same order. -/
theorem run_answerAll_of_supply {L : Type} {take : (q : Q) → StateT (List L) Option (A q)}
    {held : Q → L} {given : (q : Q) → A q}
    (taken : ∀ q rest, (take q).run (held q :: rest) = some (given q, rest)) (qs : List Q) :
    (answerAll take qs).run (qs.map held) = some (.ofFun given qs, []) := by
  induction qs with
  | nil => rfl
  | cons q rest ih =>
    simp only [answerAll, Answers.ofFun, List.map_cons, StateT.run_bind, taken, ih,
      Option.bind_eq_bind, Option.bind_some, StateT.run_pure, Option.pure_def]

/-- A computation that asks questions before it is done. A question `q` is answered in `A q`. -/
inductive Inquiry (A : Q → Type) (α : Type) where
  | done (value : α)
  | ask (question : Q) (next : A question → Inquiry A α)

namespace Inquiry

protected def bind : Inquiry A α → (α → Inquiry A β) → Inquiry A β
  | done a, f => f a
  | ask q next, f => ask q fun answer => (next answer).bind f

instance : Monad (Inquiry A) where
  pure := done
  bind := Inquiry.bind

protected theorem bind_done (x : Inquiry A α) : x.bind done = x := by
  induction x with
  | done a => rfl
  | ask q next ih => exact congrArg (ask q) (funext ih)

protected theorem bind_assoc {γ : Type} (x : Inquiry A α) (f : α → Inquiry A β)
    (g : β → Inquiry A γ) : (x.bind f).bind g = x.bind fun a => (f a).bind g := by
  induction x with
  | done a => rfl
  | ask q next ih => exact congrArg (ask q) (funext ih)

instance : LawfulMonad (Inquiry A) :=
  LawfulMonad.mk' _ Inquiry.bind_done (fun _ _ => rfl) Inquiry.bind_assoc

/-- Asks a single question. -/
def query (q : Q) : Inquiry A (A q) := ask q done

/-- Carries an inquiry out, given how questions are answered. -/
def answerWith (answer : (q : Q) → m (A q)) : Inquiry A α → m α
  | done a => pure a
  | ask q next => do (next (← answer q)).answerWith answer

variable [LawfulMonad m]

theorem answerWith_bind (answer : (q : Q) → m (A q)) (x : Inquiry A α) (f : α → Inquiry A β) :
    (x >>= f).answerWith answer = x.answerWith answer >>= fun a => (f a).answerWith answer := by
  induction x with
  | done a =>
    rw [answerWith, pure_bind]
    rfl
  | ask q next ih =>
    rw [answerWith, bind_assoc]
    exact congrArg (answer q >>= ·) (funext ih)

/-- Carrying inquiries out is a translation. -/
def translation (answer : (q : Q) → m (A q)) : Translation (Inquiry A) m where
  run := answerWith answer
  run_pure _ := rfl
  run_bind := answerWith_bind answer

theorem answerWith_query (answer : (q : Q) → m (A q)) (q : Q) :
    (query q).answerWith answer = answer q := by
  simp only [query, answerWith, bind_pure]

theorem map_answerAll_cons {q : Q} {qs : List Q} (f : Answers A (q :: qs) → α) :
    f <$> answerAll query (q :: qs)
      = ask q fun a => (fun others => f (.cons a others)) <$> answerAll query qs := by
  have later (a : A q) : f <$> (answerAll query qs >>= fun others => pure (.cons a others))
      = (fun others => f (.cons a others)) <$> answerAll query qs := by
    simp only [bind_pure_comp, Functor.map_map]
  exact congrArg (ask q) (funext later)

/-- An inquiry in which the answers to a list of questions are seen asks these questions, in this
order, and comes to a function of the answers. -/
theorem eq_map_answerAll {qs : List Q} {x : Inquiry A α} {view : α → β}
    {answered : Answers A qs → β} (viewed : view <$> x = answered <$> answerAll query qs) :
    ∃ refill : Answers A qs → α, x = refill <$> answerAll query qs := by
  induction qs generalizing x with
  | nil =>
    cases x with
    | done a => exact ⟨fun _ => a, rfl⟩
    | ask q next => cases viewed
  | cons q rest ih =>
    rw [map_answerAll_cons] at viewed
    cases x with
    | done a => cases viewed
    | ask q' next =>
      injection viewed with asked viewed
      subst asked
      have later (a : A q') := ih (congrFun (eq_of_heq viewed) a)
      choose refill inquired using later
      refine ⟨fun (.cons a others) => refill a others, ?_⟩
      rw [map_answerAll_cons]
      exact congrArg (ask q') (funext inquired)

/-- Carried out with whatever effects, an inquiry in which the answers to a list of questions are
seen answers these questions one after another. -/
theorem exists_refill {qs : List Q} {x : Inquiry A α} {view : α → List β}
    {value : (q : Q) → A q → β} (viewed : view <$> x = qs.mapM fun q => value q <$> query q) :
    ∃ refill : Answers A qs → α, ∀ {m : Type → Type} [Monad m] [LawfulMonad m]
      (answer : (q : Q) → m (A q)), x.answerWith answer = refill <$> answerAll answer qs := by
  rw [← toList_answerAll] at viewed
  obtain ⟨refill, inquired⟩ := eq_map_answerAll viewed
  refine ⟨refill, fun answer => ?_⟩
  have carried : (translation answer).run (answerAll query qs) = answerAll answer qs := by
    rw [Translation.run_answerAll]
    exact congrArg (answerAll · qs) (funext (answerWith_query answer))
  rw [inquired, ← carried]
  exact (translation answer).run_map refill _

end Inquiry

end SurfaceTree
