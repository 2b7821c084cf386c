/-
# Ops that keep to their operands

An op of a memory, a table or an array pops the operands of its type, pushes its results and writes
the store last.  So on any stack it leaves the callers' operands, the locals and the operands below
its own as they were, and where it traps the store as well (`bulk_framed`).
-/
import SubmilliWasm.Exec.Bulk
import SubmilliWasm.Exec.Window
import SubmilliWasm.Compile.Structured

namespace SubmilliWasm

variable {σ : Type}

namespace Handler

/-- A handler that has `n` operands of its own pops no others, reaches no local and goes on to
`next` with `outs`; once it has written the store it is done. -/
def Framed (next outs : ℕ) : ℕ → Handler σ → Prop
  | n, .done r => ∀ out, r = .ok out → out = .advance next ∧ n = outs
  | n, .get k => ∀ s, Framed next outs n (k s)
  | n, .set _ k => k = .done (.ok (.advance next)) ∧ n = outs
  | n, .pop m _ k => m ≤ n ∧ ∀ os, os.length = m → Framed next outs (n - m) (k os)
  | n, .push _ k => Framed next outs (n + 1) k
  | _, _ => False

variable {next outs n : ℕ}

/-! ## On a stack -/

theorem Framed.takes {H : Handler σ} (h : H.Framed next outs n) (nl ins : ℕ) :
    H.Takes nl (StepOutcome.Ends ins outs) n := by
  induction H generalizing n with
  | done r =>
    intro out hout
    obtain ⟨rfl, rfl⟩ := h out hout
    rfl
  | get k ih => exact fun s => ih s (h s)
  | set s k ih =>
    obtain ⟨rfl, rfl⟩ := h
    intro out hout
    obtain rfl := Except.ok.inj hout
    rfl
  | pop m accept k ih => exact ⟨h.1, fun os hos => ih os (h.2 os hos)⟩
  | push o k ih => exact ih h
  | look | getLocal | setLocal | branch => exact h.elim

/-- What it does not touch: the locals, and the store where it fails. -/
theorem Framed.on {H : Handler σ} (h : H.Framed next outs n) (outer below : List Operand)
    (w : Window) (s : σ) :
    (H.on outer below w s).1.locals = w.locals ∧
      (∀ out, (H.on outer below w s).2.2 = .ok out → out = .advance next) ∧
      ∀ err, (H.on outer below w s).2.2 = .error err → (H.on outer below w s).2.1 = s := by
  induction H generalizing n w s with
  | done r => exact ⟨rfl, fun out hout => (h out hout).1, fun _ _ => rfl⟩
  | get k ih => exact ih s (h s) w s
  | set s' k ih =>
    obtain ⟨rfl, -⟩ := h
    exact ⟨rfl, fun out hout => (Except.ok.inj hout).symm, fun _ h => by cases h⟩
  | pop m accept k ih =>
    rw [Handler.on]
    rcases htake : takeTop m accept w.vals with err | ⟨os, vals⟩
    · exact ⟨rfl, fun _ h => (by cases h), fun _ _ => rfl⟩
    · exact ih os (h.2 os (takeTop_ok htake).2.1) { w with vals := vals } s
  | push o k ih => exact ih h { w with vals := w.vals ++ [o] } s
  | look | getLocal | setLocal | branch => exact h.elim

/-- A framed handler on the stacks of a run. -/
theorem Framed.run {H : Handler σ} (h : H.Framed next outs n)
    {outer locals below vals : List Operand}
    {f : Frame} (hf : f.operandBase = outer.length + locals.length) (hmax : f.operandBase ≤ u32Max)
    (hn : n ≤ vals.length) (fs : List Frame) (depth : ℕ) (s : σ) :
    ∃ vals' s' r, H.run outer.length (.stacked (f :: fs) depth (outer ++ locals ++ below ++ vals)) s
        = (.stacked (f :: fs) depth (outer ++ locals ++ below ++ vals'), s', r) ∧
      vals.take (vals.length - n) <+: vals' ∧
      (∀ out, r = .ok out → out = .advance next ∧ vals'.length = vals.length - n + outs) ∧
      ∀ err, r = .error err → s' = s := by
  have htakes := h.takes locals.length n
  have hrun := run_stacked outer below htakes (w := ⟨locals, vals⟩) rfl hn hf hmax
    fs depth s
  obtain ⟨-, hprefix, hcount⟩ := on_leaves outer below htakes
    (w := ⟨locals, vals⟩) rfl hn s
  obtain ⟨hlocals, hok, herr⟩ := h.on outer below ⟨locals, vals⟩ s
  refine ⟨_, _, _, ?_, hprefix, fun out hout => ⟨hok out hout, ?_⟩, herr⟩
  · rw [hrun, hlocals]
  · have hends := hcount out hout
    obtain rfl := hok out hout
    have hle := hprefix.length_le
    simp only [StepOutcome.Ends, List.length_take] at hends hle
    omega

/-! ## Accessors -/

theorem framed_pop1 {accept : List Operand → Option ExecError} {k : Operand → Handler σ}
    (h : ∀ o, (k o).Framed next outs n) : (pop1 accept k).Framed next outs (n + 1) :=
  ⟨Nat.le_add_left 1 n, fun _ _ => h _⟩

theorem framed_at {α : Type} {o : Option α} {k : α → Handler σ}
    (h : ∀ a, (k a).Framed next outs n) : (at_ o k).Framed next outs n := by
  cases o with
  | none => exact nofun
  | some a => exact h a

theorem framed_orFail {α : Type} {r : Except ExecError α} {k : α → Handler σ}
    (h : ∀ a, (k a).Framed next outs n) : (orFail r k).Framed next outs n := by
  cases r with
  | error err => exact nofun
  | ok a => exact h a

theorem framed_checkedRange {start len total : ℕ} {trap : ExecError} {k : ℕ → Handler σ}
    (h : ∀ stop, (k stop).Framed next outs n) :
    (checkedRange start len total trap k).Framed next outs n := by
  unfold checkedRange
  split
  · exact nofun
  · split
    · exact h _
    · exact nofun

theorem framed_set (s : σ) :
    (Handler.set s (.done (.ok (.advance next)))).Framed next n n := ⟨rfl, rfl⟩

theorem framed_memEa {m : MemoryEntity} {len offset : ℕ} {k : ℕ → Handler EntityStore}
    (h : ∀ ea, (k ea).Framed next outs n) : (memEa m len offset k).Framed next outs (n + 1) := by
  unfold memEa popIndex
  refine framed_pop1 fun o => ?_
  dsimp only
  split
  · exact nofun
  · split
    · exact nofun
    · split
      · exact nofun
      · exact h _

end Handler

open Handler

/-! ## The ops -/

/-- **The ops of memories, tables and arrays keep to the operands of their types.** -/
theorem execBulk_framed {M : ModuleTypes} {locals ins outs : List IrVal} {p : PlainOp MemArg}
    (C : CompiledFunc)
    (h : M.PlainTyped locals (p.mapMem (MemArg.resolve C.bigMemargs)) ins outs) (inst next : ℕ) :
    (execBulk C p inst next).Framed next outs.length ins.length := by
  cases p with
  | load k m =>
    cases h
    exact fun s => framed_at fun _ => framed_memEa fun _ => fun _ hout =>
      ⟨(Except.ok.inj hout).symm, rfl⟩
  | store k m =>
    cases h
    refine framed_pop1 (k := fun o =>
      storeN C inst m (k.bytes o.cell) (.done (.ok (.advance next)))) fun o => ?_
    exact fun s => framed_at fun _ => framed_memEa fun _ => framed_set _
  | memorySize m =>
    cases h
    exact fun s => framed_at fun _ _ hout => ⟨(Except.ok.inj hout).symm, rfl⟩
  | memoryFill m =>
    cases h
    exact fun s => framed_at fun _ => framed_pop1 fun _ => framed_pop1 fun _ => framed_pop1 fun _ =>
      framed_checkedRange fun _ => framed_set _
  | memoryCopy d m =>
    cases h
    refine fun s => framed_at fun _ => framed_at fun _ => framed_pop1 fun _ => framed_pop1 fun _ =>
      framed_pop1 fun _ => framed_checkedRange fun _ => framed_checkedRange fun _ => ?_
    split <;> exact framed_set _
  | memoryInit d m =>
    cases h
    exact fun s => framed_at fun _ => framed_pop1 fun _ => framed_pop1 fun _ => framed_pop1 fun _ =>
      framed_at fun _ => framed_checkedRange fun _ => framed_checkedRange fun _ => framed_set _
  | dataDrop d =>
    cases h
    exact fun s => framed_at fun _ => framed_set _
  | tableFill t =>
    cases h
    refine fun s => framed_at fun _ => framed_pop1 fun _ => framed_pop1 fun _ =>
      framed_pop1 fun _ => ?_
    dsimp only
    split
    · exact nofun
    · exact framed_set _
  | tableInit e t =>
    cases h
    exact fun s => framed_at fun _ => framed_pop1 fun _ => framed_pop1 fun _ => framed_pop1 fun _ =>
      framed_at fun _ => framed_checkedRange fun _ => framed_checkedRange fun _ => framed_set _
  | tableCopy d t =>
    cases h
    exact fun s => framed_at fun _ => framed_at fun _ => framed_pop1 fun _ => framed_pop1 fun _ =>
      framed_pop1 fun _ => framed_checkedRange fun _ => framed_checkedRange fun _ => framed_set _
  | elemDrop e =>
    cases h
    exact fun s => framed_at fun _ => framed_set _
  | arrayFill ty =>
    cases h
    exact fun s => framed_orFail fun _ => framed_pop1 fun _ => framed_pop1 fun _ =>
      framed_at fun _ =>
      framed_pop1 fun _ => framed_pop1 fun _ => framed_orFail fun _ => framed_orFail fun _ =>
        framed_checkedRange fun _ => framed_at fun _ => framed_set _
  | arrayCopy d ty =>
    cases h
    exact fun s => framed_orFail fun _ => framed_pop1 fun _ => framed_pop1 fun _ =>
      framed_pop1 fun _ =>
      framed_pop1 fun _ => framed_pop1 fun _ => framed_orFail fun _ => framed_orFail fun _ =>
        framed_orFail fun _ => framed_checkedRange fun _ => framed_orFail fun _ =>
          framed_checkedRange fun _ => framed_set _
  | arrayInitData ty d =>
    cases h
    refine fun s => framed_orFail fun _ => framed_pop1 fun _ => framed_pop1 fun _ =>
      framed_pop1 fun _ => framed_pop1 fun _ => framed_orFail fun _ => framed_orFail fun _ =>
        framed_checkedRange fun _ => ?_
    split
    · exact nofun
    · exact framed_at fun _ => framed_checkedRange fun _ => framed_set _
  | arrayInitElem ty e =>
    cases h
    exact fun s => framed_orFail fun _ => framed_pop1 fun _ => framed_pop1 fun _ =>
      framed_pop1 fun _ => framed_pop1 fun _ => framed_orFail fun _ => framed_orFail fun _ =>
        framed_checkedRange fun _ => framed_at fun _ => framed_checkedRange fun _ =>
          framed_at fun _ => framed_set _
  | _ => exact nofun

/-- **The frame of a bulk op.**  On any stack an op of a validated type leaves what lies below its
operands as it was; it goes on with its results, or fails with the store unchanged. -/
theorem bulk_framed {M : ModuleTypes} {types ins outs : List IrVal} {p : PlainOp MemArg}
    (C : CompiledFunc)
    (h : M.PlainTyped types (p.mapMem (MemArg.resolve C.bigMemargs)) ins outs) (inst next : ℕ)
    {outer locals below vals : List Operand} {f : Frame}
    (hf : f.operandBase = outer.length + locals.length) (hmax : f.operandBase ≤ u32Max)
    (hn : ins.length ≤ vals.length) (fs : List Frame) (depth : ℕ) (s : EntityStore) :
    ∃ vals' s' r, (execBulk C p inst next).run outer.length
          (.stacked (f :: fs) depth (outer ++ locals ++ below ++ vals)) s
        = (.stacked (f :: fs) depth (outer ++ locals ++ below ++ vals'), s', r) ∧
      vals.take (vals.length - ins.length) <+: vals' ∧
      (∀ out, r = .ok out →
        out = .advance next ∧ vals'.length = vals.length - ins.length + outs.length) ∧
      ∀ err, r = .error err → s' = s :=
  (execBulk_framed C h inst next).run hf hmax hn fs depth s

def fillTypes : ModuleTypes where
  ctx := ⟨[], [], [], 0⟩
  globals := []
  tables := []
  memories := [true]
  elems := []
  sub := Eq
  sub_refl := Eq.refl
  sub_refKind := @IrVal.refKind_eq

/-- Filling nine bytes of a memory of eight, with an operand below. -/
theorem bulk_framed_fill :
    ∃ vals' s' r, (execBulk wideCode (.memoryFill 0) 0 1).run 0
          (.stacked [⟨wideCode, 0, 0, 0, 0, 0, none⟩] 0
            [.scalar 5, .scalar 0, .scalar 7, .scalar 9])
          wideStore
        = (.stacked [⟨wideCode, 0, 0, 0, 0, 0, none⟩] 0 vals', s', r) ∧
      [.scalar 5] <+: vals' ∧
      (∀ out, r = .ok out → out = .advance 1 ∧ vals'.length = 1) ∧
      ∀ err, r = .error err → s' = wideStore :=
  @bulk_framed fillTypes [] [.i64, .i32, .i64] [] (.memoryFill 0) wideCode
    (.memoryFill (b := true) rfl) 0 1 [] [] [] [.scalar 5, .scalar 0, .scalar 7, .scalar 9] _ rfl
    (Nat.zero_le _) (Nat.le_succ 3) [] 0 wideStore

end SubmilliWasm
