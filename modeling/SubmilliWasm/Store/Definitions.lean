/-
# Definitions of a linker

The name map of a linker (`linker.rs`) under the calls that define names.  A definition of one name
fails before the map is touched.  An instance, a module or an alias of a module is defined name
after name: where one of its names is defined already, those in front of it stay.
-/
import Mathlib.Data.List.AList
import Mathlib.Tactic.Common
import SubmilliWasm.Lib.Effects
import SubmilliWasm.Store.Linking

namespace SubmilliWasm

open Effects

namespace Definitions

variable {C : Type}

/-! ## The map -/

/-- A definition: an item of a store, or a host function, with its type and its closure. -/
inductive Def (C : Type) where
  | extern_ (e : Extern)
  | host (ty : CanonicalTypeId) (cb : C)
  | hostAsync (ty : CanonicalTypeId) (cb : C)
deriving DecidableEq

abbrev NameMap (C : Type) : Type := AList (fun _ : String × String => Def C)

structure Linker (C : Type) where
  allowShadowing : Bool
  map : NameMap C

/-- The order in which a hash map is iterated: some order of its entries. -/
structure Iteration (C : Type) where
  order : NameMap C → List (Sigma (fun _ : String × String => Def C))
  perm : ∀ map : NameMap C, (order map).Perm map.entries

/-- The order of insertion, the last first. -/
def Iteration.listed (C : Type) : Iteration C := ⟨fun map => map.entries, fun _ => List.Perm.refl _⟩

inductive ExportKind where
  | func (i : ℕ)
  | table (i : ℕ)
  | memory (i : ℕ)
  | global (i : ℕ)
  | tag (i : ℕ)
deriving DecidableEq, Repr

structure Export where
  name : String
  kind : ExportKind

/-- The parts of an instance its exports are read from. -/
structure InstanceEntity where
  exports : List Export
  funcs : List ℕ
  tables : List ℕ
  memories : List ℕ
  globals : List ℕ
  tags : List ℕ

/-- The item of an export, or the panic of an index out of bounds. -/
def InstanceEntity.extern_ (i : InstanceEntity) : ExportKind → Except LinkError Extern
  | .func k => (index i.funcs[k]?).map .func
  | .table k => (index i.tables[k]?).map .table
  | .memory k => (index i.memories[k]?).map .memory
  | .global k => (index i.globals[k]?).map .global
  | .tag k => (index i.tags[k]?).map .tag

/-- `Instance::export`. -/
def InstanceEntity.export_ (i : InstanceEntity) (name : String) :
    Except LinkError (Option Extern) :=
  match i.exports.find? (fun e => e.name = name) with
  | none => .ok none
  | some e => (i.extern_ e.kind).map some

/-- The names of an instance with their items. -/
def InstanceEntity.pairs (i : InstanceEntity) :
    List String → Except LinkError (List (String × Extern))
  | [] => .ok []
  | n :: names => do
    let e ← i.export_ n
    let rest ← i.pairs names
    return (e.map (fun e => (n, e))).toList ++ rest

/-! ## The calls -/

def Linker.put (l : Linker C) (module name : String) (d : Def C) : Linker C :=
  { l with map := l.map.insert (module, name) d }

/-- `insert`: a name is defined once, unless shadowing is allowed. -/
def insert (module name : String) (d : Def C) : EStateM LinkError (Linker C) PUnit := do
  let l ← get
  if !l.allowShadowing && (l.map.lookup (module, name)).isSome then
    throw (.msg ("import of `" ++ module ++ "::" ++ name ++ "` defined twice"))
  else set (l.put module name d)

def insertAll (module : String) (ds : List (String × Def C)) : EStateM LinkError (Linker C) PUnit :=
  each (fun d => insert module d.1 d.2) ds

/-- The names of an instance with their definitions. -/
def InstanceEntity.defs (i : InstanceEntity) : Except LinkError (List (String × Def C)) :=
  (i.pairs (i.exports.map Export.name)).map (fun pairs => pairs.map (fun p => (p.1, .extern_ p.2)))

/-- The names of a module with their definitions, as the map is iterated. -/
def Linker.named (l : Linker C) (it : Iteration C) (module : String) : List (String × Def C) :=
  (it.order l.map).filterMap (fun entry =>
    if entry.1.1 = module then some (entry.1.2, entry.2) else none)

/-- A call that defines names.  `Linker::module` brings the outcome of its instantiation, which only
reads the linker; `func_wrap` is `funcNew`, and `func_wrap_async` is `funcNewAsync`. -/
inductive Call (C : Type) where
  | define (module name : String) (item : Extern)
  | defineName (name : String) (item : Extern)
  | funcNew (module name : String) (ty : CanonicalTypeId) (cb : C)
  | funcNewAsync (module name : String) (ty : CanonicalTypeId) (cb : C)
  | alias_ (module name asModule asName : String)
  | instance_ (module : String) (i : InstanceEntity)
  | module_ (module : String) (instantiated : Except LinkError InstanceEntity)
  | aliasModule (module asModule : String)

/-- `Linker::instance`. -/
def defineInstance (module : String) (i : InstanceEntity) : EStateM LinkError (Linker C) PUnit := do
  let ds ← attempt i.defs
  insertAll module ds

/-- `Linker::alias`. -/
def defineAlias (module name asModule asName : String) : EStateM LinkError (Linker C) PUnit := do
  let l ← get
  match l.map.lookup (module, name) with
  | none => throw (.msg ("no export `" ++ module ++ "::" ++ name ++ "` to alias"))
  | some d => insert asModule asName d

/-- `Linker::alias_module`. -/
def defineAliases (it : Iteration C) (module asModule : String) :
    EStateM LinkError (Linker C) PUnit := do
  let l ← get
  insertAll asModule (l.named it module)

def Call.run (it : Iteration C) : Call C → EStateM LinkError (Linker C) PUnit
  | .define module name item => insert module name (.extern_ item)
  | .defineName name item => insert "" name (.extern_ item)
  | .funcNew module name ty cb => insert module name (.host ty cb)
  | .funcNewAsync module name ty cb => insert module name (.hostAsync ty cb)
  | .alias_ module name asModule asName => defineAlias module name asModule asName
  | .instance_ module i => defineInstance module i
  | .module_ module instantiated => do
    let i ← attempt instantiated
    defineInstance module i
  | .aliasModule module asModule => defineAliases it module asModule

/-- The module a call of several names defines, and the names in their order, once they are known.
-/
def Call.batch (it : Iteration C) (l : Linker C) : Call C → Option (String × List (String × Def C))
  | .instance_ module i => i.defs.toOption.map (fun ds => (module, ds))
  | .module_ module instantiated =>
    (instantiated.bind InstanceEntity.defs).toOption.map (fun ds => (module, ds))
  | .aliasModule module asModule => some (asModule, l.named it module)
  | _ => none

/-! ## What an error leaves -/

/-- The linker with some names defined, one after the other. -/
def Linker.putAll (l : Linker C) (module : String) (ds : List (String × Def C)) : Linker C :=
  ds.foldl (fun l d => l.put module d.1 d.2) l

/-- A definition of several names stopped at one that was defined: those in front of it, all new,
are defined, and nothing that was there has changed. -/
structure Stopped (module : String) (ds : List (String × Def C)) (l l' : Linker C) : Prop where
  refused : l.allowShadowing = false
  front : ∃ done d rest, ds = done ++ d :: rest ∧ l' = l.putAll module done ∧
    (l'.map.lookup (module, d.1)).isSome ∧ ∀ x ∈ done, l.map.lookup (module, x.1) = none
  kept : ∀ key d, l.map.lookup key = some d → l'.map.lookup key = some d

theorem insert_run (module name : String) (d : Def C) (l : Linker C) :
    insert module name d l =
      if (!l.allowShadowing && (l.map.lookup (module, name)).isSome) = true then
        .error (.msg ("import of `" ++ module ++ "::" ++ name ++ "` defined twice")) l
      else .ok ⟨⟩ (l.put module name d) := by
  show (if _ then _ else _ : EStateM LinkError (Linker C) PUnit) l = _
  split <;> rfl

variable {name module : String}

theorem insert_ok {d : Def C} {l l' : Linker C} (h : insert module name d l = .ok ⟨⟩ l') :
    l' = l.put module name d ∧
      (l.allowShadowing = false → l.map.lookup (module, name) = none) := by
  rw [insert_run] at h
  split at h
  · cases h
  · rename_i hnew
    have hl' : l.put module name d = l' := (EStateM.Result.ok.inj h).2
    refine ⟨hl'.symm, ?_⟩
    intro hrefused
    simpa [hrefused] using hnew

/-- A definition of one name that fails leaves the linker as it is. -/
theorem insert_error {d : Def C} {l l' : Linker C} {e : LinkError}
    (h : insert module name d l = .error e l') :
    l' = l ∧ l.allowShadowing = false ∧ (l.map.lookup (module, name)).isSome := by
  rw [insert_run] at h
  split at h
  · rename_i htwice
    have hl' := (EStateM.Result.error.inj h).2
    rw [Bool.and_eq_true, Bool.not_eq_true'] at htwice
    exact ⟨hl'.symm, htwice⟩
  · cases h

theorem putAll_concat (l : Linker C) (module : String) (ds : List (String × Def C))
    (d : String × Def C) :
    l.putAll module (ds ++ [d]) = (l.putAll module ds).put module d.1 d.2 := by
  rw [Linker.putAll, List.foldl_append]
  rfl

/-- A definition of a new name changes no other. -/
theorem put_kept {l : Linker C} {d : Def C} (hnew : l.map.lookup (module, name) = none)
    {key : String × String} {v : Def C} (hv : l.map.lookup key = some v) :
    (l.put module name d).map.lookup key = some v := by
  have hne : key ≠ (module, name) := by
    rintro rfl
    rw [hnew] at hv
    cases hv
  rw [Linker.put, AList.lookup_insert_ne hne, hv]

/-- What the names defined so far have in common. -/
structure Progress (module : String) (l : Linker C) (done : List (String × Def C))
    (l' : Linker C) : Prop where
  eq : l' = l.putAll module done
  shadowing : l'.allowShadowing = l.allowShadowing
  fresh : l.allowShadowing = false → ∀ x ∈ done, l.map.lookup (module, x.1) = none
  kept : l.allowShadowing = false → ∀ key d, l.map.lookup key = some d → l'.map.lookup key = some d

theorem Progress.start (module : String) (l : Linker C) : Progress module l [] l :=
  ⟨rfl, rfl, fun _ _ h => absurd h List.not_mem_nil, fun _ _ _ h => h⟩

theorem Progress.next {l l₁ l₂ : Linker C} {done : List (String × Def C)} {d : String × Def C}
    (h : Progress module l done l₁) (hd : insert module d.1 d.2 l₁ = .ok ⟨⟩ l₂) :
    Progress module l (done ++ [d]) l₂ := by
  obtain ⟨rfl, hnew⟩ := insert_ok hd
  refine ⟨?_, h.shadowing, ?_, ?_⟩
  · rw [putAll_concat, h.eq]
  · intro hrefused x hx
    rw [List.mem_append, List.mem_singleton] at hx
    obtain hearlier | rfl := hx
    · exact h.fresh hrefused x hearlier
    · -- a name new now was new at the start
      have hnow := hnew (h.shadowing.trans hrefused)
      cases hstart : l.map.lookup (module, x.1) with
      | none => rfl
      | some v =>
        rw [h.kept hrefused _ v hstart] at hnow
        cases hnow
  · intro hrefused key v hv
    exact put_kept (hnew (h.shadowing.trans hrefused)) (h.kept hrefused key v hv)

/-- A definition of several names that fails has stopped at one that was defined. -/
theorem insertAll_error {ds : List (String × Def C)} {l l' : Linker C} {e : LinkError}
    (h : insertAll module ds l = .error e l') : Stopped module ds l l' := by
  obtain ⟨l₁, hok⟩ | ⟨done, d, rest, l₁, e', l₂, rfl, hdone, hfail, hall⟩ :=
    each_cases (fun d : String × Def C => insert module d.1 d.2) ds l
  · have hboth := hok.symm.trans h
    cases hboth
  · have hl' : l₂ = l' := (EStateM.Result.error.inj (hall.symm.trans h)).2
    subst hl'
    have hprogress : Progress module l ([] ++ done) l₁ :=
      (each_steps (R := fun d l l' => insert module d.1 d.2 l = .ok ⟨⟩ l') (fun hstep => hstep)
        hdone).carry (fun hi hstep => hi.next hstep) (Progress.start module l)
    rw [List.nil_append] at hprogress
    obtain ⟨rfl, hrefused, hsome⟩ := insert_error hfail
    have hshut := hprogress.shadowing.symm.trans hrefused
    exact ⟨hshut, ⟨done, d, rest, rfl, hprogress.eq, hsome, hprogress.fresh hshut⟩,
      hprogress.kept hshut⟩

/-- **What an error leaves.**  The map is as it was, unless the call defines several names: then it
may have stopped at one of them. -/
theorem run_error {it : Iteration C} {call : Call C} {l l' : Linker C} {e : LinkError}
    (h : call.run it l = .error e l') :
    l' = l ∨ ∃ module ds, call.batch it l = some (module, ds) ∧ Stopped module ds l l' := by
  have hinstance : ∀ {module : String} {i : InstanceEntity},
      defineInstance (C := C) module i l = .error e l' →
      l' = l ∨ ∃ ds, i.defs.toOption = some ds ∧ Stopped module ds l l' := by
    intro module i hi
    unfold defineInstance at hi
    cases hds : (i.defs : Except LinkError (List (String × Def C))) with
    | error e' =>
      rw [hds] at hi
      exact .inl (EStateM.Result.error.inj hi).2.symm
    | ok ds =>
      rw [hds] at hi
      exact .inr ⟨ds, rfl, insertAll_error hi⟩
  cases call with
  | define module name item => exact .inl (insert_error h).1
  | defineName name item => exact .inl (insert_error h).1
  | funcNew module name ty cb => exact .inl (insert_error h).1
  | funcNewAsync module name ty cb => exact .inl (insert_error h).1
  | alias_ module name asModule asName =>
    left
    change (match l.map.lookup (module, name) with
      | none => throw (.msg ("no export `" ++ module ++ "::" ++ name ++ "` to alias"))
      | some d => insert asModule asName d : EStateM LinkError (Linker C) PUnit) l = _ at h
    cases hd : l.map.lookup (module, name) with
    | none =>
      rw [hd] at h
      exact (EStateM.Result.error.inj h).2.symm
    | some d =>
      rw [hd] at h
      exact (insert_error h).1
  | instance_ module i =>
    obtain hsame | ⟨ds, hds, hstopped⟩ := hinstance h
    · exact .inl hsame
    · exact .inr ⟨module, ds, by rw [Call.batch, hds]; rfl, hstopped⟩
  | module_ module instantiated =>
    cases instantiated with
    | error e' => exact .inl (EStateM.Result.error.inj h).2.symm
    | ok i =>
      obtain hsame | ⟨ds, hds, hstopped⟩ := hinstance h
      · exact .inl hsame
      · refine .inr ⟨module, ds, ?_, hstopped⟩
        show (i.defs.toOption).map (fun ds => (module, ds)) = some (module, ds)
        rw [hds]
        rfl
  | aliasModule module asModule => exact .inr ⟨asModule, _, rfl, insertAll_error h⟩

/-! ## An instance whose second name is defined -/

/-- An instance that exports two functions, `a` and `b`. -/
def twoExports : InstanceEntity :=
  ⟨[⟨"a", .func 0⟩, ⟨"b", .func 1⟩], [10, 11], [], [], [], []⟩

/-- A linker that defines `m::b`. -/
def taken : Linker Unit := ⟨false, AList.insert ("m", "b") (.extern_ (.func 7)) ∅⟩

theorem taken_refuses :
    (Call.instance_ "m" twoExports).run (Iteration.listed Unit) taken =
      .error (.msg "import of `m::b` defined twice") (taken.put "m" "a" (.extern_ (.func 10))) := by
  rfl

/-- The first name stays defined. -/
theorem taken_stopped :
    taken.put "m" "a" (.extern_ (.func 10)) = taken ∨
      ∃ module ds, (Call.instance_ "m" twoExports).batch (Iteration.listed Unit) taken =
        some (module, ds) ∧ Stopped module ds taken (taken.put "m" "a" (.extern_ (.func 10))) :=
  run_error taken_refuses

theorem not_all_or_nothing :
    ¬ ∀ (it : Iteration Unit) (call : Call Unit) (l l' : Linker Unit) (e : LinkError),
      call.run it l = .error e l' → ∀ key, l'.map.lookup key = l.map.lookup key := by
  intro hall
  have hsame := hall (Iteration.listed Unit) (.instance_ "m" twoExports) taken _ _ taken_refuses
    ("m", "a")
  have hnow : (taken.put "m" "a" (.extern_ (.func 10))).map.lookup ("m", "a") =
      some (.extern_ (.func 10)) := AList.lookup_insert _
  have hbefore : taken.map.lookup ("m", "a") = none := by decide
  rw [hnow, hbefore] at hsame
  cases hsame

end Definitions

end SubmilliWasm
