import RowGraph.Proofs.Schema.Reached
import RowGraph.Session.Basic

/-!
# Proofs — Session — what a session sends

A session performs calls one after the other.  `Session.statement` says which statement a call
asks for, and with which limit; it knows nothing of engines.

**A session sends what it compiled, once, and only then** (`Session.performAll_sends`).  The engine
receives, in the order of the calls, one statement for each call that compiles and none for the
others; the call that sends the `k`-th statement is settled by the `k`-th answer, and by no other.
-/

namespace RowGraph

open Sql

/-- The kind of statement a call asks for. -/
def Call.kind : Call → StatementKind
  | .findAll .. | .findOne .. | .findByKey .. => .select
  | .count .. => .count
  | .create .. | .bulkCreate .. => .insert
  | .update .. => .update
  | .destroy .. => .delete

namespace Session

/-! ### The statement of a call -/

/-- The limit of a find of everything: the caller's, else, without includes, the configured one. -/
def findAllLimit (s : Session) (o : FindOptions) : Option Nat :=
  o.limit.or (if o.includes.isEmpty then s.config.defaultLimit else none)

/-- The limit of a find of one record: one without includes, else the caller's. -/
def findOneLimit (o : FindOptions) : Option Nat :=
  if o.includes.isEmpty then some 1 else o.limit

/-- The statement a call asks for, or why there is none. -/
def statement (s : Session) : Call → Except Error Statement
  | .findAll entity o =>
      (s.registry.select entity { o with limit := s.findAllLimit o }).map Select.statement
  | .findOne entity o =>
      (s.registry.select entity { o with limit := findOneLimit o }).map Select.statement
  | .findByKey entity key o => do
      let e ← s.registry.entity entity
      let filter := keyFilter e.primaryKey key o.filter
      (s.registry.select entity { o with filter := some filter, limit := findOneLimit o }).map
        Select.statement
  | .count entity o => (s.registry.count entity o).map Count.statement
  | .create entity values => (s.registry.insert entity [values]).map Insert.statement
  | .bulkCreate entity rows => (s.registry.insert entity rows).map Insert.statement
  | .update entity values filter =>
      (s.registry.update entity values filter).map Update.statement
  | .destroy entity filter => (s.registry.delete entity filter).map Delete.statement

theorem findAllOptions_eq (s : Session) (o : FindOptions) :
    s.findAllOptions o = { o with limit := s.findAllLimit o } := by
  obtain ⟨filter, columns, includes, group, order, limit, offset⟩ := o
  cases limit <;> cases includes <;> rfl

theorem findOneOptions_eq (o : FindOptions) :
    findOneOptions o = { o with limit := findOneLimit o } := by
  obtain ⟨filter, columns, includes, group, order, limit, offset⟩ := o
  cases includes <;> rfl

theorem selectRequest_eq (s : Session) (entity : String) (o : FindOptions)
    (reply : List Record → Reply) :
    ∃ read, s.selectRequest entity o reply =
      ((s.registry.select entity o).map Select.statement).map fun st => ⟨.select, st, read⟩ := by
  unfold selectRequest
  cases s.registry.select entity o with
  | error err => exact ⟨fun _ => .ok .done, rfl⟩
  | ok plan => exact ⟨fun rows => .ok (reply (plan.shape.records rows)), rfl⟩

/-- A request that is read in the same way whatever its plan. -/
theorem bind_request {Plan : Type} (plan : Except Error Plan) (f : Plan → Statement)
    (kind : StatementKind) (read : List Row → Except CallError Reply) :
    (do let p ← plan; return ⟨kind, f p, read⟩ : Except Error Request) =
      (plan.map f).map fun st => ⟨kind, st, read⟩ := by
  cases plan <;> rfl

/-- The request of a call holds its statement, and is refused for the same reason. -/
theorem request_eq (s : Session) (c : Call) :
    ∃ read, s.request c = (s.statement c).map fun st => ⟨c.kind, st, read⟩ := by
  cases c with
  | findAll entity o =>
      rw [request, statement, findAllOptions_eq]
      exact s.selectRequest_eq entity _ .records
  | findOne entity o =>
      rw [request, statement, findOneOptions_eq]
      exact s.selectRequest_eq entity _ fun rs => .record rs.head?
  | findByKey entity key o =>
      rw [request, statement]
      cases s.registry.entity entity with
      | error err => exact ⟨fun _ => .ok .done, rfl⟩
      | ok host =>
          simp only [bind, Except.bind, findOneOptions_eq]
          exact s.selectRequest_eq entity _ fun rs => .record rs.head?
  | count entity o => exact ⟨countReply, bind_request (s.registry.count entity o) ..⟩
  | create entity values =>
      exact ⟨fun _ => .ok .done, bind_request (s.registry.insert entity [values]) ..⟩
  | bulkCreate entity rows =>
      exact ⟨fun _ => .ok .done, bind_request (s.registry.insert entity rows) ..⟩
  | update entity values filter =>
      exact ⟨fun _ => .ok .done, bind_request (s.registry.update entity values filter) ..⟩
  | destroy entity filter =>
      exact ⟨fun _ => .ok .done, bind_request (s.registry.delete entity filter) ..⟩

theorem request_of_error {s : Session} {c : Call} {err : Error} (h : s.statement c = .error err) :
    s.request c = .error err := by
  obtain ⟨read, hq⟩ := s.request_eq c
  rw [hq, h]
  rfl

theorem request_of_ok {s : Session} {c : Call} {st : Statement} (h : s.statement c = .ok st) :
    ∃ read, s.request c = .ok ⟨c.kind, st, read⟩ := by
  obtain ⟨read, hq⟩ := s.request_eq c
  exact ⟨read, by rw [hq, h]; rfl⟩

/-- The statements of the calls that compile, in the order of the calls. -/
def sent (s : Session) (cs : List Call) : List Statement :=
  cs.filterMap fun c => (s.statement c).toOption

theorem sent_append (s : Session) (cs ds : List Call) :
    s.sent (cs ++ ds) = s.sent cs ++ s.sent ds := List.filterMap_append

theorem sent_cons (s : Session) (c : Call) (cs : List Call) :
    s.sent (c :: cs) = s.sent [c] ++ s.sent cs := s.sent_append [c] cs

theorem sent_of_ok {s : Session} {c : Call} {st : Statement} (h : s.statement c = .ok st) :
    s.sent [c] = [st] := by
  simp [sent, h, Except.toOption]

theorem sent_of_error {s : Session} {c : Call} {err : Error} (h : s.statement c = .error err) :
    s.sent [c] = [] := by
  simp [sent, h, Except.toOption]

/-- The statement of a call stands behind those of the calls before it. -/
theorem getElem?_sent {s : Session} {cs : List Call} {i : Nat} {c : Call} {st : Statement}
    (hc : cs[i]? = some c) (h : s.statement c = .ok st) :
    (s.sent cs)[(s.sent (cs.take i)).length]? = some st := by
  obtain ⟨hi, rfl⟩ := List.getElem?_eq_some_iff.mp hc
  have hs : s.sent cs = s.sent (cs.take i) ++ ([st] ++ s.sent (cs.drop (i + 1))) :=
    calc s.sent cs = s.sent (cs.take i ++ cs[i] :: cs.drop (i + 1)) := by simp
      _ = s.sent (cs.take i) ++ ([st] ++ s.sent (cs.drop (i + 1))) := by
        rw [sent_append, sent_cons, sent_of_ok h]
  rw [hs, List.getElem?_append_right (Nat.le_refl _), Nat.sub_self]
  rfl

end Session

/-! ### An engine's answers -/

namespace Engine

/-- The answer to the statement that is the `k`-th from here. -/
def answer (e : Engine) (k : Nat) : Answer := e.answers[k]?.getD (.ok [])

/-- The engine once it has been given statements. -/
def given (e : Engine) (sts : List Statement) : Engine :=
  ⟨e.answers.drop sts.length, e.received ++ sts⟩

theorem given_nil (e : Engine) : e.given [] = e := by simp [given]

theorem given_given (e : Engine) (sts more : List Statement) :
    (e.given sts).given more = e.given (sts ++ more) := by
  simp [given, List.drop_drop, List.append_assoc]

theorem answer_given (e : Engine) (sts : List Statement) (k : Nat) :
    (e.given sts).answer k = e.answer (sts.length + k) := by
  simp [answer, given, List.getElem?_drop]

theorem execute_eq (e : Engine) (st : Statement) : e.execute st = (e.answer 0, e.given [st]) := by
  obtain ⟨answers, received⟩ := e
  cases answers <;> rfl

end Engine

/-! ### Runs -/

namespace Session

/-- What comes of a call, if `a` is what the engine answers to its statement. -/
def respond (s : Session) (c : Call) (a : Answer) : Outcome :=
  match s.request c with
  | .ok q => q.outcome a
  | .error err => ⟨.error (.request err), []⟩

theorem respond_of_error {s : Session} {c : Call} {err : Error} (h : s.statement c = .error err)
    (a : Answer) : s.respond c a = ⟨.error (.request err), []⟩ := by
  rw [respond, request_of_error h]

theorem respond_failed {s : Session} {c : Call} {st : Statement} (h : s.statement c = .ok st)
    (f : EngineFailure) :
    s.respond c (.error f) =
      ⟨.error (.engine f), [.compiled c.kind st, .failed c.kind f]⟩ := by
  obtain ⟨read, hq⟩ := request_of_ok h
  rw [respond, hq]
  rfl

theorem respond_answered {s : Session} {c : Call} {st : Statement} (h : s.statement c = .ok st)
    (rows : List Row) :
    ∃ q, s.request c = .ok q ∧ s.respond c (.ok rows) =
      ⟨q.reply rows, [.compiled c.kind st, .executed c.kind rows.length]⟩ := by
  obtain ⟨read, hq⟩ := request_of_ok h
  refine ⟨_, hq, ?_⟩
  rw [respond, hq]
  rfl

/-- What one call does: it sends its statement if it has one, and takes the next answer for it. -/
theorem perform_eq (s : Session) (c : Call) (e : Engine) :
    s.perform c e = (s.respond c (e.answer 0), e.given (s.sent [c])) := by
  unfold perform respond
  cases h : s.statement c with
  | ok st =>
      obtain ⟨read, hq⟩ := request_of_ok h
      simp only [hq, sent_of_ok h, Engine.execute_eq]
  | error err => simp only [request_of_error h, sent_of_error h, Engine.given_nil]

theorem performAll_cons (s : Session) (c : Call) (cs : List Call) (e : Engine) :
    s.performAll (c :: cs) e =
      ((s.perform c e).1 :: (s.performAll cs (s.perform c e).2).1,
        (s.performAll cs (s.perform c e).2).2) := rfl

theorem performAll_append (s : Session) (cs ds : List Call) (e : Engine) :
    (s.performAll (cs ++ ds) e).1 =
      (s.performAll cs e).1 ++ (s.performAll ds (s.performAll cs e).2).1 := by
  induction cs generalizing e with
  | nil => rfl
  | cons c cs ih => rw [List.cons_append, performAll_cons, performAll_cons, ih, List.cons_append]

/-- What a run gives to the engine. -/
theorem performAll_snd (s : Session) (cs : List Call) (e : Engine) :
    (s.performAll cs e).2 = e.given (s.sent cs) := by
  induction cs generalizing e with
  | nil => exact e.given_nil.symm
  | cons c cs ih =>
      rw [performAll_cons, ih, perform_eq, Engine.given_given, ← sent_cons]

/-- What comes of the calls of a run: each takes the answer that stands behind those for the calls
before it. -/
theorem getElem?_performAll (s : Session) (cs : List Call) (e : Engine) (i : Nat) :
    (s.performAll cs e).1[i]? =
      cs[i]?.map fun c => s.respond c (e.answer (s.sent (cs.take i)).length) := by
  induction cs generalizing e i with
  | nil => rfl
  | cons c cs ih =>
      rw [performAll_cons, perform_eq]
      cases i with
      | zero => rfl
      | succ i =>
          -- for the calls behind it, the first call moves the answers on by its statement, if any
          have hk : (s.sent ((c :: cs).take (i + 1))).length =
              (s.sent [c]).length + (s.sent (cs.take i)).length := by
            rw [List.take_succ_cons, sent_cons, List.length_append]
          rw [List.getElem?_cons_succ, ih, List.getElem?_cons_succ, hk]
          simp only [Engine.answer_given]

theorem length_performAll (s : Session) (cs : List Call) (e : Engine) :
    (s.performAll cs e).1.length = cs.length := by
  induction cs generalizing e with
  | nil => rfl
  | cons c cs ih => rw [performAll_cons, List.length_cons, ih, List.length_cons]

/-- Of an engine only its answers matter to what comes of calls. -/
theorem performAll_congr (s : Session) (cs : List Call) {e e' : Engine}
    (h : e.answers = e'.answers) : (s.performAll cs e).1 = (s.performAll cs e').1 := by
  refine List.ext_getElem? fun i => ?_
  simp only [getElem?_performAll, Engine.answer, h]

/-- How a call goes whose statement, if there is one, is the `k`-th that the engine receives. -/
structure Goes (s : Session) (as : List Answer) (received : List Statement) (k : Nat) (c : Call)
    (o : Outcome) : Prop where
  /-- A call that does not compile comes back with that error. -/
  refused : ∀ err, s.statement c = .error err → o = ⟨.error (.request err), []⟩
  sent : ∀ st, s.statement c = .ok st → received[k]? = some st
  failed : ∀ st f, s.statement c = .ok st → as[k]? = some (.error f) →
    o = ⟨.error (.engine f), [.compiled c.kind st, .failed c.kind f]⟩
  /-- An engine out of answers answers without rows. -/
  answered : ∀ st rows, s.statement c = .ok st → as[k]?.getD (.ok []) = .ok rows →
    ∃ q, s.request c = .ok q ∧
      o = ⟨q.reply rows, [.compiled c.kind st, .executed c.kind rows.length]⟩

theorem goes_respond {s : Session} {cs : List Call} {i : Nat} {c : Call} (hc : cs[i]? = some c)
    (as : List Answer) :
    s.Goes as (s.sent cs) (s.sent (cs.take i)).length c
      (s.respond c ((Engine.ofAnswers as).answer (s.sent (cs.take i)).length)) where
  refused _ h := respond_of_error h _
  sent _ h := getElem?_sent hc h
  failed _ f h ha := by
    rw [Engine.answer, Engine.ofAnswers, ha]
    exact respond_failed h f
  answered _ rows h ha := by
    rw [Engine.answer, Engine.ofAnswers, ha]
    exact respond_answered h rows

/-- **A session sends what it compiled, once, and only then.**  The engine receives the statements
of the calls that compile, in order, and has used up as many answers; every call is settled by the
answer to its own statement and by no other; and calls that follow go as they would in a session
that only has the answers left. -/
theorem performAll_sends (s : Session) (cs : List Call) (as : List Answer) :
    (s.performAll cs (.ofAnswers as)).2 = ⟨as.drop (s.sent cs).length, s.sent cs⟩ ∧
    (s.performAll cs (.ofAnswers as)).1.length = cs.length ∧
    (∀ i c, cs[i]? = some c → ∃ o, (s.performAll cs (.ofAnswers as)).1[i]? = some o ∧
      s.Goes as (s.sent cs) (s.sent (cs.take i)).length c o) ∧
    (∀ i c, cs[i]? = some c → ∀ bs : List Answer,
      (∀ st, s.statement c = .ok st →
        bs[(s.sent (cs.take i)).length]? = as[(s.sent (cs.take i)).length]?) →
      (s.performAll cs (.ofAnswers bs)).1[i]? = (s.performAll cs (.ofAnswers as)).1[i]?) ∧
    ∀ ds, (s.performAll (cs ++ ds) (.ofAnswers as)).1 =
      (s.performAll cs (.ofAnswers as)).1 ++
        (s.performAll ds (.ofAnswers (as.drop (s.sent cs).length))).1 := by
  refine ⟨performAll_snd s cs _, s.length_performAll cs _, ?_, ?_, ?_⟩
  · intro i c hc
    exact ⟨_, by rw [getElem?_performAll, hc, Option.map_some], goes_respond hc as⟩
  · intro i c hc bs hbs
    simp only [getElem?_performAll, hc, Option.map_some]
    cases h : s.statement c with
    | error err => rw [respond_of_error h, respond_of_error h]
    | ok st => simp only [Engine.answer, Engine.ofAnswers, hbs st h]
  · intro ds
    rw [performAll_append, performAll_snd]
    exact congrArg _ (s.performAll_congr ds rfl)

/-- The library without settings. -/
def atLibrary : Session := ⟨.library, .empty⟩

/-- Three calls on the library, which has no shelves. -/
def errands : List Call := [.findAll "book" .all, .count "shelf" .all, .destroy "book" none]

theorem performAll_sends_errands :
    ∃ books removal, atLibrary.statement (.findAll "book" .all) = .ok books ∧
      atLibrary.statement (.destroy "book" none) = .ok removal ∧
      (atLibrary.performAll errands (.ofAnswers [.error ⟨"out of slots", none⟩, .ok []])).2 =
        ⟨[], [books, removal]⟩ ∧
      (atLibrary.performAll errands (.ofAnswers [.error ⟨"out of slots", none⟩, .ok []])).1[0]? =
        some ⟨.error (.engine ⟨"out of slots", none⟩),
          [.compiled .select books, .failed .select ⟨"out of slots", none⟩]⟩ ∧
      (atLibrary.performAll errands (.ofAnswers [.error ⟨"out of slots", none⟩, .ok []])).1[1]? =
        some ⟨.error (.request (.unknownEntity "shelf")), []⟩ ∧
      (atLibrary.performAll errands (.ofAnswers [.error ⟨"out of slots", none⟩, .ok []])).1[1]? =
        (atLibrary.performAll errands (.ofAnswers [])).1[1]? := by
  obtain ⟨hengine, -, hgoes, hbs, -⟩ :=
    performAll_sends atLibrary errands [.error ⟨"out of slots", none⟩, .ok []]
  obtain ⟨o, ho, h⟩ := hgoes 0 _ rfl
  obtain ⟨o', ho', h'⟩ := hgoes 1 _ rfl
  refine ⟨_, _, rfl, rfl, hengine, ?_, ?_, ?_⟩
  · rw [ho, h.failed _ _ rfl rfl]
    rfl
  · rw [ho', h'.refused _ rfl]
  · exact (hbs 1 _ rfl [] fun st hst => nomatch hst).symm

end Session

end RowGraph
