/-
# Where a body lies in the emitted code

`CodeAt C ctx live cmp Ls h b ip ip' out hs` says that the code `C` holds the sequence `b`
from `ip` on and that its last op is before `ip'`: every branch carries the address, the
arity and the height of the label it names, the landing pads and handler spans of every
`try_table` are in place, and unreachable code is not there at all.  `h` is the operand
height at `ip`, `Ls` the labels, innermost first, `out` tells whether the end of `b` can be
reached, and `hs` are the handler spans of `b`, in the order of the exception table.  `cmp`
is a comparison in front of `b` whose op the first op of `b` has replaced.

The relation mentions neither patches nor the translator: it is what the interpreter finds
in a finished function.
-/
import SubmilliWasm.Compile.Emit

namespace SubmilliWasm

/-! ## Labels in the code -/

/-- A label in the code: its address, the operand height below its arguments, the number of
arguments, and whether the code at the address exists. -/
structure Target where
  ip : ℕ
  base : ℕ
  arity : ℕ
  live : Bool
  deriving DecidableEq, Repr

/-- The edge of a branch from height `h`. -/
def Target.edge (L : Target) (h : ℕ) : BranchTarget := ⟨L.ip, L.arity, h - (L.base + L.arity)⟩

/-- `e` is the edge of a branch to the label `l` from height `h`. -/
def EdgeTo (Ls : List Target) (h l : ℕ) (e : BranchTarget) : Prop :=
  ∃ L, Ls[l]? = some L ∧ L.live = true ∧ L.base + L.arity ≤ h ∧ e = L.edge h

/-- The memory immediate an op denotes (`resolve` of `src/exec/memory.rs`). -/
def MemArg.resolve (pool : List BigMemArg) (m : MemArg) : BigMemArg :=
  if m.offset = bigMemarg then pool.getD m.memory ⟨0, 0⟩ else ⟨m.memory, m.offset⟩

/-- The landing pads of a `try_table` from `ip` on, with the handler records they belong to. -/
inductive Pads (C : CompiledFunc) (ctx : CompileCtx) (Ls : List Target) (base : ℕ) :
    List Catch → ℕ → List HandlerRec → Prop where
  | nil {ip} : Pads C ctx Ls base [] ip []
  | cons {c cs ip e recs} (hop : C.ops[ip]? = some (.br e))
      (he : EdgeTo Ls (base + Translator.payloadCount ctx (convCatch c)) c.label e)
      (h : Pads C ctx Ls base cs (ip + 1) recs) :
      Pads C ctx Ls base (c :: cs) ip
        (⟨(convCatch c).tag, base, (convCatch c).payloadArgs, (convCatch c).payloadRef, ip⟩ :: recs)

/-- What lies between the end `e` of a region's body and the address `x` behind the region: for a
`try_table` the branch over its landing pads, and the pads. -/
inductive RegionEnd (C : CompiledFunc) (ctx : CompileCtx) (Ls : List Target) (base rs ip : ℕ) :
    Region → ℕ → ℕ → List HandlerSpan → Prop where
  | block {e} : RegionEnd C ctx Ls base rs ip .block e e []
  | loop {e} : RegionEnd C ctx Ls base rs ip .loop e e []
  | tryTable {catches e recs} (hop : C.ops[e]? = some (.br ⟨e + 1 + catches.length, rs, 0⟩))
      (h : Pads C ctx Ls base catches (e + 1) recs) :
      RegionEnd C ctx Ls base rs ip (.tryTable catches) e (e + 1 + catches.length) [⟨ip, e, recs⟩]

/-- The label of a region that starts at `ip` and is left at `x`. -/
def regionTarget (ctx : CompileCtx) (r : Region) (bt : BlockType) (h ip x : ℕ) (live : Bool) :
    Target :=
  if r = .loop then
    ⟨ip, h - (Translator.blockArity ctx bt).1, (Translator.blockArity ctx bt).1, true⟩
  else ⟨x, h - (Translator.blockArity ctx bt).1, (Translator.blockArity ctx bt).2, live⟩

/-! ## The layout of a sequence -/

inductive CodeAt (C : CompiledFunc) (ctx : CompileCtx) :
    Bool → Option CmpKind → List Target → ℕ → Body → ℕ → ℕ → Bool → List HandlerSpan → Prop where
  | dead {Ls h b ip} : CodeAt C ctx false none Ls h b ip ip false []
  | done {Ls h ip} : CodeAt C ctx true none Ls h .done ip ip true []
  | plain {Ls h p p' k ip ip' out hs} (hop : C.ops[ip]? = some (.plain p'))
      (hp : p'.mapMem (MemArg.resolve C.bigMemargs) = p)
      (hk : CodeAt C ctx true none Ls (plainAfter ctx p h) k (ip + 1) ip' out hs) :
      CodeAt C ctx true none Ls h (.plain p k) ip ip' out hs
  | fuse {Ls h kind k ip ip' out hs}
      (hk : CodeAt C ctx true (some kind) Ls (plainAfter ctx (.relop kind) h) k ip ip' out hs) :
      CodeAt C ctx true none Ls h (.plain (.relop kind) k) ip ip' out hs
  | region {Ls h r bt b k ip e x ip' live inner out hs hs' spans}
      (hps : (Translator.blockArity ctx bt).1 ≤ h)
      (hb : CodeAt C ctx true none (regionTarget ctx r bt h ip x live :: Ls) h b ip e inner hs)
      (hlive : inner = true → live = true) (hloop : r = .loop → live = inner)
      (hend : RegionEnd C ctx Ls (h - (Translator.blockArity ctx bt).1)
        (Translator.blockArity ctx bt).2 ip r e x spans)
      (hk : CodeAt C ctx live none Ls
        (h - (Translator.blockArity ctx bt).1 + (Translator.blockArity ctx bt).2) k x ip' out hs') :
      CodeAt C ctx true none Ls h (.region r bt b k) ip ip' out (hs ++ spans ++ hs')
  | ifElse {cmp Ls h bt t e k ip e₁ elseIp x ip' live out₁ out₂ out hs₁ hs₂ hs₃}
      (hps : (Translator.blockArity ctx bt).1 + 1 ≤ h)
      (hop : C.ops[ip]? = some (Translator.condBranch cmp true ⟨elseIp, 0, 0⟩))
      (ht : CodeAt C ctx true none
        (⟨x, h - 1 - (Translator.blockArity ctx bt).1, (Translator.blockArity ctx bt).2, live⟩
          :: Ls)
        (h - 1) t (ip + 1) e₁ out₁ hs₁)
      (hjump : out₁ = true → elseIp = e₁ + 1 ∧ live = true ∧
        C.ops[e₁]? = some (.br ⟨x, (Translator.blockArity ctx bt).2, 0⟩))
      (hskip : out₁ = false → elseIp = e₁)
      (he : CodeAt C ctx true none
        (⟨x, h - 1 - (Translator.blockArity ctx bt).1, (Translator.blockArity ctx bt).2, live⟩
          :: Ls)
        (h - 1) e elseIp x out₂ hs₂)
      (hlive : out₂ = true → live = true)
      (hk : CodeAt C ctx live none Ls
        (h - 1 - (Translator.blockArity ctx bt).1 + (Translator.blockArity ctx bt).2) k x ip' out
        hs₃) :
      CodeAt C ctx true cmp Ls h (.ifElse bt t e k) ip ip' out (hs₁ ++ hs₂ ++ hs₃)
  | ifThen {cmp Ls h bt t k ip x ip' out₁ out hs₁ hs₂}
      (hps : (Translator.blockArity ctx bt).1 + 1 ≤ h)
      (hop : C.ops[ip]? = some (Translator.condBranch cmp true ⟨x, 0, 0⟩))
      (ht : CodeAt C ctx true none
        (⟨x, h - 1 - (Translator.blockArity ctx bt).1, (Translator.blockArity ctx bt).2, true⟩
          :: Ls)
        (h - 1) t (ip + 1) x out₁ hs₁)
      (hk : CodeAt C ctx true none Ls
        (h - 1 - (Translator.blockArity ctx bt).1 + (Translator.blockArity ctx bt).2) k x ip' out
        hs₂) :
      CodeAt C ctx true cmp Ls h (.ifThen bt t k) ip ip' out (hs₁ ++ hs₂)
  | br {Ls h l e k ip} (hop : C.ops[ip]? = some (.br e)) (he : EdgeTo Ls h l e) :
      CodeAt C ctx true none Ls h (.jump (.br l) k) ip (ip + 1) false []
  | brTable {Ls h cases default base k ip} (hop : C.ops[ip]? = some (.brTable base cases.length))
      (hh : 1 ≤ h)
      (he : ∀ i l, (cases ++ [default])[i]? = some l →
        ∃ e, C.brTables[base + i]? = some e ∧ EdgeTo Ls (h - 1) l e) :
      CodeAt C ctx true none Ls h (.jump (.brTable cases default) k) ip (ip + 1) false []
  | ret {Ls h L k ip} (hL : Ls.getLast? = some L) (hh : L.arity ≤ h)
      (hop : C.ops[ip]? = some (.br ⟨L.ip, L.arity, h - L.arity⟩)) :
      CodeAt C ctx true none Ls h (.jump .ret k) ip (ip + 1) false []
  | unreachable {Ls h k ip} (hop : C.ops[ip]? = some .unreachable) :
      CodeAt C ctx true none Ls h (.jump .unreachable k) ip (ip + 1) false []
  | throw {Ls h tag k ip} (hop : C.ops[ip]? = some (.throw tag)) :
      CodeAt C ctx true none Ls h (.jump (.throw tag) k) ip (ip + 1) false []
  | throwRef {Ls h k ip} (hop : C.ops[ip]? = some .throwRef) :
      CodeAt C ctx true none Ls h (.jump .throwRef k) ip (ip + 1) false []
  | returnCall {Ls h c k ip} (hop : C.ops[ip]? = some (.returnCall c)) :
      CodeAt C ctx true none Ls h (.jump (.returnCall c) k) ip (ip + 1) false []
  | brIf {cmp Ls h l e k ip ip' out hs} (hh : 1 ≤ h)
      (hop : C.ops[ip]? = some (Translator.condBranch cmp false e)) (he : EdgeTo Ls (h - 1) l e)
      (hk : CodeAt C ctx true none Ls (h - 1) k (ip + 1) ip' out hs) :
      CodeAt C ctx true cmp Ls h (.cond (.brIf l) k) ip ip' out hs
  | brOnNull {Ls h l e k ip ip' out hs} (hh : 1 ≤ h) (hop : C.ops[ip]? = some (.brOnNull e))
      (he : EdgeTo Ls (h - 1) l e)
      (hk : CodeAt C ctx true none Ls (h - 1 + 1) k (ip + 1) ip' out hs) :
      CodeAt C ctx true none Ls h (.cond (.brOnNull l) k) ip ip' out hs
  | brOnNonNull {Ls h l e k ip ip' out hs} (hop : C.ops[ip]? = some (.brOnNonNull e))
      (he : EdgeTo Ls h l e) (hk : CodeAt C ctx true none Ls (h - 1) k (ip + 1) ip' out hs) :
      CodeAt C ctx true none Ls h (.cond (.brOnNonNull l) k) ip ip' out hs
  | brOnCast {Ls h l ty nullable fail pool e k ip ip' out hs}
      (hop : C.ops[ip]? = some (.brOnCast ty pool nullable fail))
      (hpool : C.brTables[pool]? = some e) (he : EdgeTo Ls h l e)
      (hk : CodeAt C ctx true none Ls h k (ip + 1) ip' out hs) :
      CodeAt C ctx true none Ls h (.cond (.brOnCast l ty nullable fail) k) ip ip' out hs
  | call {Ls h c k ip ip' out hs} (hop : C.ops[ip]? = some (.call c))
      (hk : CodeAt C ctx true none Ls
        (h - Translator.callPops ctx c + (Translator.callSig ctx c).2.length) k
          (ip + 1) ip' out hs) :
      CodeAt C ctx true none Ls h (.call c k) ip ip' out hs

/-- Unreachable code is not there. -/
theorem CodeAt.of_dead {C : CompiledFunc} {ctx : CompileCtx} {cmp : Option CmpKind}
    {Ls : List Target} {h ip ip' : ℕ} {b : Body} {out : Bool} {hs : List HandlerSpan}
    (hc : CodeAt C ctx false cmp Ls h b ip ip' out hs) : ip' = ip ∧ out = false ∧ hs = [] := by
  cases hc with
  | dead => exact ⟨rfl, rfl, rfl⟩

/-- The code of a whole function: its body, from the first op to the end, and its exception
table. -/
def FuncCode (C : CompiledFunc) (ctx : CompileCtx) (b : Body) : Prop :=
  ∃ out, CodeAt C ctx true none [⟨C.ops.length, 0, C.nResults, true⟩] 0 b 0 C.ops.length out
    C.handlers

end SubmilliWasm
