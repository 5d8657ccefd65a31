import Jasm.Proofs.Compile.Stacks
import Jasm.Proofs.Source.Statements

/-!
# Compiled programs do what their source does

The class of a program holds a method for each of its functions, found by the name it is called by,
and a field for each of its global variables with its first value. With this, the results on
statements give the result on programs: a run of the source that comes to its end is followed by a
run of the class that ends with the same output and the same values in the fields.
-/

namespace Jasm.Source

open Assembly Compile
open Machine (Runs)

variable {limit : Int} {stem : String} {p : Program} {Γ Γ' : Scopes} {env : Env}
  {mg : String → Option Int32} {globals : Level} {fs : List Program.Function} {n n' : Nat}
  {ms : List Method} {G : Scope Symbol} {ds : List (Position × Program.Declaration)}
  {fields : List (String × Option Int32)} {x : Symbol} {slot : Option Nat} {b : Binding}

/-! ## Functions and their methods -/

theorem functions_of_methods? (outside : Γ.Outside)
    (h : Γ.methods? limit stem n fs = some (ms, Γ', n')) :
    (fs.map (·.name)).Nodup ∧ (∀ fn ∈ fs, Γ.stack.global.get? fn.name = none) ∧
      ∀ name e, Γ'.stack.global.get? name = some e → Γ.stack.global.get? name = some e ∨
        ∃ fn ∈ fs, fn.name = name ∧ e.item = .function fn.signature := by
  induction fs generalizing Γ n ms with
  | nil =>
    cases h
    exact ⟨.nil, by simp, fun name e he => .inl he⟩
  | cons f rest ih =>
    obtain ⟨slot, Γ₁, Ts, ms', inserted, -, others, rfl⟩ := Scopes.methods?_cons h
    have outside₁ := outside.insert? (x := .function f.signature) trivial inserted
    obtain ⟨new, get?⟩ := outside.get?_of_insert? inserted
    obtain ⟨nodup, fresh, only⟩ := ih outside₁ others
    have new : Γ.stack.global.get? f.name = none := new
    have get? (name : String) : Γ₁.stack.global.get? name =
        if name = f.name then some ⟨.function, .function f.signature, slot⟩
        else Γ.stack.global.get? name := get? name
    have different (fn : Program.Function) (mem : fn ∈ rest) : fn.name ≠ f.name := by
      intro same
      have absent := fresh fn mem
      rw [get?, if_pos same] at absent
      cases absent
    refine ⟨?_, ?_, ?_⟩
    · rw [List.map_cons, List.nodup_cons]
      refine ⟨?_, nodup⟩
      intro mem
      obtain ⟨fn, mem, same⟩ := List.mem_map.mp mem
      exact different fn mem same
    · intro fn mem
      rcases List.mem_cons.mp mem with rfl | mem
      · exact new
      · have absent := fresh fn mem
        rwa [get?, if_neg (different fn mem)] at absent
    · intro name e he
      rcases only name e he with he | ⟨fn, mem, same, item⟩
      · rw [get?] at he
        split at he
        · next same =>
            cases he
            exact .inr ⟨f, List.mem_cons_self .., same.symm, rfl⟩
        · exact .inl he
      · exact .inr ⟨fn, List.mem_cons_of_mem _ mem, same, item⟩

theorem find?_method {fn : Program.Function}
    (each : List.Forall₂ (Scopes.MethodOf limit stem G) fs ms) (nodup : (fs.map (·.name)).Nodup)
    (mem : fn ∈ fs) :
    ∃ m, fs.find? (·.name = fn.name) = some fn ∧
      (ms.find? fun m => m.name = fn.signature.name ∧ m.arity = fn.signature.arity ∧
        m.returns = fn.signature.result?.isSome) = some m ∧
      Scopes.MethodOf limit stem G fn m := by
  induction each with
  | nil => cases mem
  | @cons f m fs ms of rest ih =>
    rw [List.map_cons, List.nodup_cons] at nodup
    obtain ⟨Γ, Ts, n, outside, below, resolved, rfl⟩ := of
    rcases List.mem_cons.mp mem with rfl | mem
    · refine ⟨_, ?_, ?_, Γ, Ts, n, outside, below, resolved, rfl⟩
      · rw [List.find?_cons_of_pos (by simp)]
      · rw [List.find?_cons_of_pos (by simp [Scopes.method])]
    · have different : f.name ≠ fn.name := by
        intro same
        exact nodup.1 (List.mem_map.mpr ⟨fn, mem, same.symm⟩)
      obtain ⟨m, found, method, of⟩ := ih nodup.2 mem
      refine ⟨m, ?_, ?_, of⟩
      · rw [List.find?_cons_of_neg (by simpa using different)]
        exact found
      · rw [List.find?_cons_of_neg (by
          intro same
          exact different (of_decide_eq_true same).1)]
        exact method

/-! ## Global declarations -/

theorem fields_of_globals? (outside : Γ.Outside) (h : Γ.globals? ds = some (fields, Γ')) :
    (fields.map (·.1)).Nodup ∧ (∀ x ∈ fields, Γ.stack.global.get? x.1 = none) ∧
      ∀ name e, Γ'.stack.global.get? name = some e →
        Γ.stack.global.get? name = some e ∨ e.item.form ≠ .function := by
  induction ds generalizing Γ fields with
  | nil =>
    cases h
    exact ⟨.nil, by simp, fun name e he => .inl he⟩
  | cons d rest ih =>
    obtain ⟨first, Γ₁, others, h₁, h₂, rfl⟩ := Scopes.globals?_cons h
    obtain ⟨x, slot, inserted, good, noFunction, single⟩ := Scopes.global?_eq_some h₁
    obtain ⟨new, get?⟩ := outside.get?_of_insert? inserted
    obtain ⟨nodup, fresh, only⟩ := ih (outside.insert? good inserted) h₂
    have named (y : String × Option Int32) (mem : y ∈ first) : y.1 = x.name := by
      rcases single with ⟨-, -, rfl⟩ | ⟨-, n, rfl⟩
      · cases mem
      · rw [List.mem_singleton.mp mem]
    have absent (y : String × Option Int32) (mem : y ∈ others) :
        y.1 ≠ x.name ∧ Γ.stack.global.get? y.1 = none := by
      have absent := fresh y mem
      rw [get?] at absent
      split at absent
      · cases absent
      · next different => exact ⟨different, absent⟩
    refine ⟨?_, ?_, ?_⟩
    · rw [List.map_append, List.nodup_append]
      refine ⟨?_, nodup, ?_⟩
      · rcases single with ⟨-, -, rfl⟩ | ⟨-, n, rfl⟩
        · exact .nil
        · exact List.nodup_singleton _
      · intro name mem name' mem' same
        obtain ⟨y, inFirst, rfl⟩ := List.mem_map.mp mem
        obtain ⟨y', inOthers, rfl⟩ := List.mem_map.mp mem'
        exact (absent y' inOthers).1 (same ▸ named y inFirst)
    · intro y mem
      rcases List.mem_append.mp mem with mem | mem
      · rw [named y mem]
        exact new
      · exact (absent y mem).2
    · intro name e he
      rcases only name e he with he | item
      · rw [get?] at he
        split at he
        · cases he
          exact .inr noFunction
        · exact .inl he
      · exact .inr item

theorem lookup_of_nodup {x : String × Option Int32} (nodup : (fields.map (·.1)).Nodup)
    (mem : x ∈ fields) : fields.lookup x.1 = some x.2 := by
  obtain ⟨before, after, rfl⟩ := List.append_of_mem mem
  rw [List.map_append, List.map_cons, List.nodup_append] at nodup
  refine List.lookup_eq_some_iff.mpr ⟨before, after, rfl, fun y inBefore => bne_iff_ne.mpr ?_⟩
  exact (nodup.2.2 y.1 (List.mem_map_of_mem inBefore) x.1 List.mem_cons_self).symm

theorem GlobalsAgree.insert? (h : GlobalsAgree Γ.stack.global globals mg) (outside : Γ.Outside)
    (inserted : Γ.insert? x = some (slot, Γ')) (holds : GlobalHolds mg x.name ⟨x.form, x, slot⟩ b) :
    GlobalsAgree Γ'.stack.global (Function.update globals x.name (some b)) mg := by
  obtain ⟨new, get?⟩ := outside.get?_of_insert? inserted
  refine ⟨fun name b' hb => ?_, fun name e he hn => ?_⟩
  · rw [get?]
    by_cases same : name = x.name
    · subst same
      rw [Function.update_self] at hb
      cases hb
      exact ⟨_, if_pos rfl, holds⟩
    · rw [Function.update_of_ne same] at hb
      rw [if_neg same]
      exact h.holds name b' hb
  · rw [get?] at he
    by_cases same : name = x.name
    · subst same
      rw [Function.update_self] at hn
      cases hn
    · rw [Function.update_of_ne same] at hn
      rw [if_neg same] at he
      exact h.function name e he hn

theorem GlobalsAgree.functions (h : GlobalsAgree Γ.stack.global globals mg) (outside : Γ.Outside)
    (methods : Γ.methods? limit stem n fs = some (ms, Γ', n')) :
    GlobalsAgree Γ'.stack.global globals mg := by
  obtain ⟨-, -, only⟩ := functions_of_methods? outside methods
  obtain ⟨-, below, -⟩ := outside.methods? methods
  constructor
  · intro name b hb
    obtain ⟨e, he, holds⟩ := h.holds name b hb
    exact ⟨e, below name e he, holds⟩
  · intro name e he hn
    rcases only name e he with he | ⟨fn, -, -, item⟩
    · exact h.function name e he hn
    · exact ⟨_, item⟩

theorem proper_outside (outside : Γ.Outside) : Proper Γ.stack.global Γ := by
  have none : frames Γ = [] := by simp [frames, outside.inner]
  refine ⟨outside.good, fun _ _ he => he, ?_, ?_, ?_⟩
  · rw [outside.inner, outside.bases]
    rfl
  · simp [none]
  · simp [none]

theorem agrees_outside (outside : Γ.Outside) (locals : env.locals = [])
    (h : GlobalsAgree Γ.stack.global env.globals mg) (ml : Nat → Option Int32) :
    Agrees Γ.stack.global Γ env ml mg := by
  have none : frames Γ = [] := by simp [frames, outside.inner]
  refine ⟨?_, h⟩
  rw [none, locals]
  exact .nil

/-- What holds between the global declarations of a program. -/
structure Declared (mg : String → Option Int32) (Γ : Scopes) (env : Env) : Prop where
  locals : env.locals = []
  output : env.output = []
  globals : GlobalsAgree Γ.stack.global env.globals mg

theorem Declared.insert? (h : Declared mg Γ env) (outside : Γ.Outside)
    (inserted : Γ.insert? x = some (slot, Γ')) (holds : GlobalHolds mg x.name ⟨x.form, x, slot⟩ b) :
    Declared mg Γ' (env.declare x.name b) := by
  have global := h.globals.insert? outside inserted holds
  have declared : env.declare x.name b =
      ⟨[], Function.update env.globals x.name (some b), []⟩ := by
    simp only [Env.declare, h.locals, h.output]
  rw [declared]
  exact ⟨rfl, rfl, global⟩

theorem image?_some {kind : Kind} {e : Program.Expr} {n : Option Int32}
    (h : Γ.image? kind (some e) = some n) :
    ∃ t i, Γ.type? e = some t ∧ t.kind = kind ∧ t.static.intImage? = some i ∧ n = some i := by
  simp only [Scopes.image?] at h
  obtain ⟨t, filtered, image⟩ := Option.bind_eq_some_iff.mp h
  obtain ⟨type, kind⟩ := Option.filter_eq_some_iff.mp filtered
  obtain ⟨i, held, rfl⟩ := Option.map_eq_some_iff.mp image
  exact ⟨t, i, type, by simpa using kind, held, rfl⟩

theorem Declared.global? {d : Program.Declaration} (h : Declared mg Γ env) (outside : Γ.Outside)
    (declared : Γ.global? d = some (fields, Γ')) (stored : ∀ x ∈ fields, mg x.1 = some (x.2.getD 0))
    {fuel : Nat} :
    Fine (Declared mg Γ') (declare p fuel env d) := by
  have proper := proper_outside outside
  have agrees := agrees_outside outside h.locals h.globals fun _ => none
  cases fuel with
  | zero =>
    rw [declare]
    exact .error (by decide)
  | succ fuel =>
    cases d with
    | «variable» name kind init =>
      simp only [Scopes.global?] at declared
      split at declared
      · next n slot Γ₁ image inserted =>
          split at declared
          · next storable =>
              cases declared
              have stored : mg name = some (n.getD 0) := stored (name, n) (by simp)
              cases init with
              | none =>
                cases image
                simp only [declare, h.locals, List.isEmpty_nil]
                refine h.insert? outside inserted ⟨name, .uninit kind, 0, rfl, ?_, ?_, stored⟩
                · cases kind <;> rfl
                · cases kind <;> first | rfl | cases storable
              | some e =>
                obtain ⟨t, i, type, hk, held, rfl⟩ := image?_some image
                have accepted : (Value.uninit kind).assign t.static = .ok t.static :=
                  if_pos hk.symm
                rcases agrees.eval_known p proper e type (Value.isInit_of_intImage? held) fuel
                  with found | found
                · simp only [declare, found, accepted]
                  exact h.insert? outside inserted
                    ⟨name, .uninit kind, i, rfl, hk, held, stored⟩
                · simp only [declare, found]
                  exact .error (by decide)
          · cases declared
      · cases declared
    | constant name kind init =>
      obtain ⟨Γ₁, declared, heq⟩ := Option.map_eq_some_iff.mp declared
      cases heq
      obtain ⟨t, slot, type, known, inserted⟩ := Scopes.insert?_of_constant? declared
      rcases agrees.eval_known p proper init type known fuel with found | found
      · simp only [declare, found]
        exact h.insert? outside inserted ⟨name, rfl⟩
      · simp only [declare, found]
        exact .error (by decide)
    | array name kind length values =>
      obtain ⟨Γ₁, declared, heq⟩ := Option.map_eq_some_iff.mp declared
      cases heq
      obtain ⟨a, slot, inserted, rfl⟩ := Scopes.insert?_of_array? declared
      simp only [declare]
      exact h.insert? outside inserted ⟨a, rfl⟩

theorem Declared.globals? (h : Declared mg Γ env) (outside : Γ.Outside)
    (declared : Γ.globals? ds = some (fields, Γ'))
    (stored : ∀ x ∈ fields, mg x.1 = some (x.2.getD 0)) {fuel : Nat} :
    Fine (Declared mg Γ') (declareAll p fuel env ds) := by
  induction ds generalizing Γ env fields with
  | nil =>
    cases declared
    exact h
  | cons d rest ih =>
    obtain ⟨first, Γ₁, others, h₁, h₂, rfl⟩ := Scopes.globals?_cons declared
    obtain ⟨x, slot, inserted, good, -, -⟩ := Scopes.global?_eq_some h₁
    have outside₁ := outside.insert? good inserted
    have stored₁ : ∀ x ∈ first, mg x.1 = some (x.2.getD 0) :=
      fun x mem => stored x (List.mem_append_left _ mem)
    rw [declareAll]
    refine (h.global? outside h₁ stored₁).andThen (fun _ => id) fun env₁ declared₁ => ?_
    exact ih declared₁ outside₁ h₂ fun x mem => stored x (List.mem_append_right _ mem)

/-! ## Programs -/

variable {k : Assembly.Class}

theorem linked_of_methods? (outside : Γ.Outside)
    (noFunction : ∀ name e, Γ.stack.global.get? name = some e → e.item.form ≠ .function)
    (methods : Γ.methods? limit stem n p.functions = some (k.methods, Γ', n')) :
    Linked limit stem p k Γ'.stack.global := by
  obtain ⟨nodup, -, only⟩ := functions_of_methods? outside methods
  obtain ⟨-, -, each⟩ := outside.methods? methods
  intro name form f slot he
  rcases only name _ he with he | ⟨fn, mem, rfl, item⟩
  · exact absurd rfl (noFunction name _ he)
  · have item : f = fn.signature := Symbol.function.inj item
    subst item
    obtain ⟨m, found, method, of⟩ := find?_method each nodup mem
    exact ⟨fn, m, found, rfl, method, of⟩

/-- The machine has come to the end of a class, with the output of the source and with its global
variables. -/
structure Ended (k : Assembly.Class) (env : Env) (m : Machine) : Prop where
  runs : Runs k (.start k) m
  frames : m.frames = []
  output : m.output = seen env.output
  globals : ∀ name w, env.globals name = some (.variable w) →
    ∃ n, w.intImage? = some n ∧ m.globals name = some n

theorem Ended.of_agree (agree : GlobalsAgree G env.globals mg)
    (runs : Runs k (.start k) ⟨[], mg, seen env.output⟩) :
    Ended k env ⟨[], mg, seen env.output⟩ := by
  refine ⟨runs, rfl, rfl, fun name w hw => ?_⟩
  obtain ⟨e, -, id, v, n, -, -, image, stored⟩ := agree.holds name _ hw
  exact ⟨n, image, stored⟩

theorem ended_of_class? (h : Scopes.class? limit stem p = some k) (fuel : Nat) :
    Fine (fun env => ∃ m, Ended k env m) (run p fuel) := by
  obtain ⟨Γ, Γ', n, Ts, last, declared, methods, main, entry⟩ := Scopes.class?_eq_some h
  have outside := Scopes.outside_empty.globals? declared
  obtain ⟨nodup, -, noFunction⟩ := fields_of_globals? Scopes.outside_empty declared
  obtain ⟨outside', -, -⟩ := outside.methods? methods
  have noFunction : ∀ name e, Γ.stack.global.get? name = some e → e.item.form ≠ .function := by
    intro name e he
    rcases noFunction name e he with he | item
    · simp [Scope.get?] at he
    · exact item
  have linked := linked_of_methods? outside noFunction methods
  -- The fields are there with the first values of the global variables.
  have stored : ∀ x ∈ k.fields, k.initial x.1 = some (x.2.getD 0) := by
    intro x mem
    rw [Assembly.Class.initial, lookup_of_nodup nodup mem]
    rfl
  have start : Declared k.initial ⟨{}, [0]⟩ ⟨[], fun _ => none, []⟩ :=
    ⟨rfl, rfl, fun name b hb => (by cases hb), fun name e he => (by simp [Scope.get?] at he)⟩
  rw [run]
  refine (start.globals? Scopes.outside_empty declared stored).andThen (fun _ => id)
    fun env declared' => ?_
  -- The entry point runs as a method without parameters.
  have globals := declared'.globals.functions outside methods
  obtain ⟨proper, frames⟩ := proper_method outside'.good (fun _ _ he => he) outside'.inner
    outside'.bases
  have agrees : Agrees Γ'.stack.global (Γ'.enter true) env.enter
      (fun i => ([] : List Int32)[i]?) k.initial := by
    refine ⟨?_, globals⟩
    rw [frames, Env.enter, declared'.locals]
    exact .cons (levelAgrees_empty _ 0) .nil
  have ends : (Frame.start k.entry [] false).EndsWith ((lowerAll stem Ts n).1 ++ [.ret]) := by
    rw [entry]
    exact ⟨by simpa [Frame.start, Instruction.label?] using (numbered_lowerAll stem Ts n).nodup,
      List.suffix_refl _⟩
  have started : Machine.start k = ⟨[(Frame.start k.entry [] false).set
      ((lowerAll stem Ts n).1 ++ [.ret]) []], k.initial, seen env.enter.output⟩ := by
    rw [Env.enter, declared'.output, ← entry]
    rfl
  dsimp only
  refine ((Follows.of_linked linked).all proper (Scopes.inner_enter_ne Γ' true) agrees
    (by simp) main).andThen (fun _ => id) fun outcome executed => ?_
  cases outcome with
  | done env' =>
    obtain ⟨ml', mg', agrees', moves⟩ := executed
    refine ⟨_, .of_agree agrees'.globals ?_⟩
    rw [started]
    exact ((moves n).2 _ [] [.ret] rfl ends).trans (runs_ret rfl)
  | returned v env' =>
    obtain ⟨result, mg', gives, globals', returns⟩ := executed
    cases gives with
    | nothing _ =>
      refine ⟨_, .of_agree globals' ?_⟩
      rw [started]
      exact returns n _ [] [.ret] rfl rfl (fun h => by cases h) ends
    | value some _ => cases some

end Jasm.Source

namespace Jasm.Compile.Walk

open Assembly

variable (cfg : Config) {c : State} {className : String} {o : Assembly.Options}

/-- A program that was compiled without an error never gets stuck, and what is written does what the
program does: if a run of the source comes to its end, the class comes to its end with the same
output and the same values of global variables. -/
theorem code_follows_source (p : Program) (fresh : c.Fresh className o)
    (clean : (behind (program cfg p) c).Clean) :
    ∃ k : Assembly.Class,
      (behind (program cfg p) c).generator.lines.toList.map (·.2) = k.lines o.withDefaults ∧
      ∀ fuel, match Source.run p fuel with
        | .ok env => ∃ m, Source.Ended k env m
        | .error fault => fault ≠ .stuck := by
  obtain ⟨k, resolved, lines⟩ := exists_class cfg p fresh clean
  refine ⟨k, lines, fun fuel => ?_⟩
  have ended := Source.ended_of_class? resolved fuel
  cases ran : Source.run p fuel with
  | ok env =>
      rw [ran] at ended
      exact ended
  | error fault =>
      rw [ran] at ended
      exact ended

theorem code_follows_source_factorials :
    let cfg : Config := ⟨"", 3⟩
    let c : State := { generator := .new "factorials" {}, reporter := .collecting 10 }
    let o : Assembly.Options := Assembly.Options.withDefaults {}
    c.Fresh "factorials" {} ∧ (behind (program cfg factorials) c).Clean ∧
      (Source.run factorials 40).toOption.map (·.output) =
        some [(.int 1, true), (.int 2, true), (.int 6, true)] ∧
      ∃ k : Assembly.Class,
        (behind (program cfg factorials) c).generator.lines.toList.map (·.2) = k.lines o ∧
        ∀ fuel, match Source.run factorials fuel with
          | .ok env => ∃ m, Source.Ended k env m
          | .error fault => fault ≠ .stuck := by
  intro cfg c o
  have fresh : c.Fresh "factorials" {} := ⟨rfl, rfl, rfl, rfl, rfl, rfl⟩
  have clean : (behind (program cfg factorials) c).Clean := ⟨by decide +kernel, by decide +kernel⟩
  exact ⟨fresh, clean, by decide +kernel, code_follows_source cfg factorials fresh clean⟩

end Jasm.Compile.Walk
