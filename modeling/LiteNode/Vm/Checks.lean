import LiteNode.Vm.Execute

/-!
# Checks

What is checked and charged before an instruction is executed changes nothing
but the effort, the budget and the memory that is left, and waits for nothing.
-/

namespace LiteNode
namespace Vm

variable {env : Env} {scope : Scope}

/-! ## Computations that only spend -/

/-- Nothing changed but what was spent. -/
def Spent (before after : State) : Prop :=
  after = { before with
    effortUsed := after.effortUsed, budget := after.budget, fheMemory := after.fheMemory }

namespace Spent

variable {first second third : State}

theorem refl (st : State) : Spent st st := rfl

theorem trans (before : Spent first second) (after : Spent second third) : Spent first third := by
  rw [Spent] at before after ⊢
  rw [after, before]

theorem symm (spent : Spent first second) : Spent second first := by
  rw [Spent] at spent ⊢
  rw [spent]

theorem sameBooks (spent : Spent first second) : SameBooks first second := by
  rw [spent]
  constructor <;> rfl

theorem regs (spent : Spent first second) : second.regs = first.regs := by rw [spent]

theorem memory (spent : Spent first second) : second.memory = first.memory := by rw [spent]

theorem memorySize (spent : Spent first second) : second.memorySize = first.memorySize := by
  rw [spent]

theorem pc (spent : Spent first second) : second.pc = first.pc := by rw [spent]

end Spent

/-- It never waits for a worker. -/
def Prompt (x : Exec env scope α) : Prop :=
  ∀ st waits request, (x.run st).1 ≠ .error (.suspend waits request)

namespace Prompt

theorem pure (a : α) : Prompt (Pure.pure a : Exec env scope α) := by rintro st waits request ⟨⟩

theorem read : Prompt (MonadReader.read : Exec env scope State) := by rintro st waits request ⟨⟩

theorem raise : Prompt (raise : Exec env scope α) := by rintro st waits request ⟨⟩

theorem fatal : Prompt (throw .fatal : Exec env scope α) := by rintro st waits request ⟨⟩

theorem change (f : State → State) (permitted : ∀ st, Change env scope st (f st)) :
    Prompt (Chained.change f permitted : Exec env scope PUnit) := by
  rintro st waits request ⟨⟩

theorem changing (f : State → α × State) (permitted : ∀ st, Change env scope st (f st).2) :
    Prompt (Chained.changing f permitted : Exec env scope α) := by
  rintro st waits request ⟨⟩

theorem bind {x : Exec env scope α} {f : α → Exec env scope β}
    (first : Prompt x) (next : ∀ a, Prompt (f a)) : Prompt (x >>= f) := by
  intro st waits request
  have before := first st waits request
  rw [Chained.run_bind]
  split
  · next a after ended => exact next a after waits request
  · next stop after ended =>
    rw [ended] at before
    rintro ⟨⟩
    exact before rfl

theorem rescue {work other : Exec env scope Bool} (first : Prompt work)
    (second : Prompt other) : Prompt (rescue work other) := by
  intro st waits request
  rw [Vm.rescue, Chained.run_tryCatch]
  split
  · rintro ⟨⟩
  · next stop after ended =>
    cases stop with
    | caught => exact second after waits request
    | fatal => rintro ⟨⟩
    | suspend waits request => exact absurd (congrArg Prod.fst ended) (first st waits request)

theorem ite {condition : Prop} [Decidable condition]
    {x y : Exec env scope α} (first : Prompt x) (second : Prompt y) :
    Prompt (if condition then x else y) := by
  split
  · exact first
  · exact second

theorem ifM {x : Exec env scope Bool} {y z : Exec env scope α}
    (first : Prompt x) (second : Prompt y) (third : Prompt z) : Prompt (do if ← x then y else z) :=
  first.bind fun _ => second.ite third

theorem answered (answer : Except Crash α) : Prompt (answered answer : Exec env scope α) := by
  rcases answer with crash | a
  · cases crash with
    | caught => exact raise
    | fatal => exact fatal
  · exact pure a

end Prompt

/-- Every run only spends and never waits. -/
structure Quiet (x : Exec env scope α) : Prop where
  spent : ∀ st, Spent st (x.run st).2
  prompt : Prompt x

namespace Quiet

theorem pure (a : α) : Quiet (Pure.pure a : Exec env scope α) := ⟨fun st => .refl st, .pure a⟩

theorem read : Quiet (MonadReader.read : Exec env scope State) := ⟨fun st => .refl st, .read⟩

theorem bind {x : Exec env scope α} {f : α → Exec env scope β}
    (first : Quiet x) (next : ∀ a, Quiet (f a)) : Quiet (x >>= f) where
  spent st := by
    have before := first.spent st
    rw [Chained.run_bind]
    split
    · next a after ended =>
      rw [ended] at before
      exact before.trans ((next a).spent after)
    · next stop after ended =>
      rw [ended] at before
      exact before
  prompt := first.prompt.bind fun a => (next a).prompt

theorem rescue {work other : Exec env scope Bool} (first : Quiet work) (second : Quiet other) :
    Quiet (rescue work other) where
  spent st := by
    have before := first.spent st
    rw [Vm.rescue, Chained.run_tryCatch]
    split
    · next a after ended =>
      rw [ended] at before
      exact before
    · next stop after ended =>
      rw [ended] at before
      split
      · exact before.trans (second.spent after)
      · exact before
  prompt := first.prompt.rescue second.prompt

theorem ite {condition : Prop} [Decidable condition]
    {x y : Exec env scope α} (first : Quiet x) (second : Quiet y) :
    Quiet (if condition then x else y) := by
  split
  · exact first
  · exact second

theorem ifM {x : Exec env scope Bool} {y z : Exec env scope α}
    (first : Quiet x) (second : Quiet y) (third : Quiet z) : Quiet (do if ← x then y else z) :=
  first.bind fun _ => second.ite third

end Quiet

theorem update_quiet (f : State → State) (same : ∀ st, SameBooks st (f st))
    (effort : ∀ st, (f st).effortUsed = st.effortUsed) (spent : ∀ st, Spent st (f st)) :
    Quiet (update f same effort : Exec env scope Unit) :=
  ⟨spent, .change _ _⟩

theorem raise_quiet : Quiet (raise : Exec env scope α) := ⟨fun st => .refl st, .raise⟩

theorem getr_quiet (r : Reg) : Quiet (getr r : Exec env scope Value) := by
  refine Quiet.read.bind fun st => ?_
  split
  · split
    · exact Quiet.pure _
    · exact raise_quiet
  · exact raise_quiet

theorem getZ_quiet (r : Reg) : Quiet (getZ env r : Exec env scope Int) :=
  (getr_quiet r).bind fun _ => Quiet.pure _

theorem readInt_quiet (r : Reg) : Quiet (readInt env r : Exec env scope (Option Int)) :=
  (getZ_quiet r).bind fun _ => Quiet.pure _

theorem findCell_quiet (cell : Int) : Quiet (findCell cell : Exec env scope (Option Value)) :=
  Quiet.read.bind fun _ => Quiet.pure _

theorem bounded_quiet : Quiet (bounded : Exec env scope Bool) :=
  Quiet.read.bind fun _ => Quiet.pure _

theorem charging_quiet (quote : State → Option Int)
    (bounds : ∀ st effort, quote st = some effort →
      st.effortUsed ≤ effort ∧ effort ≤ env.effortLimit) :
    Quiet (charging env quote bounds : Exec env scope Bool) where
  spent st := by
    rw [charging, Chained.run_changing]
    split <;> rfl
  prompt := .changing _ _

theorem addDynEffort_quiet (cost : Int) : Quiet (addDynEffort env cost : Exec env scope Bool) :=
  charging_quiet _ _

theorem addZEffort_quiet (cost : Int) : Quiet (addZEffort env cost : Exec env scope Bool) :=
  charging_quiet _ _

theorem settle_quiet (work : (used : Int) → Charging (Rise env.effortLimit used)) :
    Quiet (settle env work : Exec env scope Bool) where
  spent st := by
    rw [settle, Chained.run_changing]
    split
    · exact .refl st
    · split <;> rfl
  prompt := .changing _ _

theorem chargeBytes_quiet (base prior : Int) (requests : List ByteWork.Request) :
    Quiet (chargeBytes env base prior requests : Exec env scope Bool) :=
  bounded_quiet.ifM (settle_quiet _) (addDynEffort_quiet prior)

theorem planNumbers_quiet (base : Int) (requests : List ByteWork.Request)
    (inputs : List NumberArg) :
    Quiet (planNumbers base requests inputs :
      Exec env scope (Option (Int × List ByteWork.Request))) := by
  induction inputs generalizing base requests with
  | nil => exact Quiet.pure _
  | cons input rest ih =>
    refine (getr_quiet _).bind fun value => ?_
    split
    · split
      · exact Quiet.pure _
      · exact ih _ _
    · exact ih _ _

theorem fits_quiet (base : Int) (requests : List ByteWork.Request) :
    Quiet (fits env base requests : Exec env scope Bool) := by
  refine Quiet.read.bind fun st => ?_
  split <;> exact Quiet.pure _

theorem machineNumbers_quiet (inputs : List NumberArg) :
    Quiet (machineNumbers env inputs : Exec env scope Bool) := by
  induction inputs with
  | nil => exact Quiet.pure _
  | cons input rest ih =>
    cases input with
    | numeric reg passes => exact ih
    | machine reg passes =>
      exact (getZ_quiet reg).bind fun _ => ih.ite (Quiet.pure _)

theorem admitNumbers_quiet (op : Instr) (inputs : List NumberArg) :
    Quiet (admitNumbers env op inputs : Exec env scope Bool) := by
  refine (planNumbers_quiet _ _ _).bind fun plan => ?_
  split
  · exact Quiet.pure _
  · exact Quiet.pure _
  · exact (fits_quiet _ _).ifM (chargeBytes_quiet _ _ _) (Quiet.pure _)

theorem reserveNumbers_quiet (op : Instr) : Quiet (reserveNumbers env op : Exec env scope Bool) :=
  bounded_quiet.ifM
    ((admitNumbers_quiet op _).ifM (machineNumbers_quiet _) (Quiet.pure _))
    (Quiet.pure _)

theorem regIs_quiet (test : Value → Bool) (reg : Reg) :
    Quiet (regIs test reg : Exec env scope Bool) :=
  (getr_quiet reg).bind fun _ => Quiet.pure _

theorem allOf_quiet (checks : List (Exec env scope Bool))
    (quiet : ∀ check ∈ checks, Quiet check) : Quiet (allOf checks) := by
  induction checks with
  | nil => exact Quiet.pure _
  | cons check rest ih =>
    exact (quiet check List.mem_cons_self).ifM
      (ih fun other present => quiet other (List.mem_cons_of_mem _ present))
      (Quiet.pure _)

/-- Whether every check is on the value of one register. -/
theorem allOf_regIs_quiet (tests : List (Reg × (Value → Bool))) :
    Quiet (allOf (tests.map fun test => regIs test.2 test.1) : Exec env scope Bool) := by
  apply allOf_quiet
  intro check present
  obtain ⟨test, -, rfl⟩ := List.mem_map.mp present
  exact regIs_quiet _ _

theorem allRegs_quiet (test : Value → Bool) (regs : List Reg) :
    Quiet (allOf (regs.map (regIs test)) : Exec env scope Bool) := by
  apply allOf_quiet
  intro check present
  obtain ⟨reg, -, rfl⟩ := List.mem_map.mp present
  exact regIs_quiet _ _

theorem spanChecks_quiet (regs : List Reg) (first : Exec env scope Bool)
    (quiet : Quiet first) (inside : Bool) :
    Quiet (do
      if ← first then
        if inside then noCaps regs else return false
      else return false : Exec env scope Bool) :=
  quiet.ifM ((allRegs_quiet _ _).ite (Quiet.pure _)) (Quiet.pure _)

theorem allNumeric_quiet (regs : List Reg) : Quiet (allNumeric regs : Exec env scope Bool) :=
  allRegs_quiet _ _

theorem allText_quiet (regs : List Reg) : Quiet (allText regs : Exec env scope Bool) :=
  allRegs_quiet _ _

theorem noCaps_quiet (regs : List Reg) : Quiet (noCaps regs : Exec env scope Bool) :=
  allRegs_quiet _ _

theorem strictOperands_quiet (op : Instr) :
    Quiet (strictOperands env op : Exec env scope Bool) := by
  cases op with
  | add | eq | neq =>
    exact (getr_quiet _).bind fun _ => (getr_quiet _).bind fun _ => Quiet.pure _
  | sub | mul | div | mod | lt | gt | bitand | bitor | bitxor | bitshl
  | bitshr | neg | abs | mloadr | vecdotQ16 | elemwiseMulQ16 | residualAddQ16
  | expQ16 | softmaxQ16Inplace | layernormQ16Inplace | rmsnormQ16Inplace
  | siluQ16Inplace | ropeApplyQ16 | attentionKvQ16 | sloadn | sstoren
  | appendVecQ16 | argmaxQ16 => exact allNumeric_quiet _
  | objectMemberCount | objectHasMember | objectTransitionApply | indexof
  | sha256 | keccak256 | fstore | fload | strlen | spawn | fhePedersenAdd
  | fhePedersenSub | fheDeser | fheDeserPk | groth16VerifyBn254 | ed25519Ok =>
    exact allText_quiet _
  | mstore | emit => exact noCaps_quiet _
  | jif | assert | balance | sloadk | sdelk | isaddr | ishex | statePathKey
  | assertAddr | capCheck | capClose | fheLoadPk | fheSer | fheSerPk => exact regIs_quiet _ _
  | mstorer | sstorek | parseInts | objectMemberRefAt | skeys | transfer
  | fheCommit | fhePedersen => exact allOf_regIs_quiet [(_, _), (_, _)]
  | substr | skeysPage | fheAdd | fheSub | fheMul | fheScale | fheDivConst
  | fheAddConst | fheSubConst | fheVerifyZero | fheVerifyRange =>
    exact allOf_regIs_quiet [(_, _), (_, _), (_, _)]
  | fheVerifyBound => exact allOf_regIs_quiet [(_, _), (_, _), (_, _), (_, _)]
  | loadInt8BytesToMem | loadInt8B64ToMem | loadInt8Q16 =>
    exact allOf_regIs_quiet [(_, _), (_, _), (_, _), (_, _), (_, _)]
  | sstore key source =>
    dsimp only [strictOperands]
    split <;> exact regIs_quiet _ _
  | concat rd left right =>
    refine (getr_quiet _).bind fun left => (getr_quiet _).bind fun right => ?_
    split
    · exact Quiet.pure _
    · split <;> exact Quiet.pure _
  | xcall => exact spanChecks_quiet _ _ (allOf_regIs_quiet [(_, _), (_, _)]) _
  | spawn2 => exact spanChecks_quiet _ _ (allText_quiet _) _
  | _ => exact Quiet.pure _

theorem strictOk_quiet (op : Instr) : Quiet (strictOk env op : Exec env scope Bool) :=
  (strictOperands_quiet op).ite (Quiet.pure _)

theorem binaryEffort_quiet (op : Instr) (kind : IntWork.Op) (left right : Reg) :
    Quiet (binaryEffort env op kind left right : Exec env scope Int) :=
  (bounded_quiet.ifM (Quiet.pure _) (Quiet.pure _)).bind fun _ =>
    (getZ_quiet left).bind fun _ => (getZ_quiet right).bind fun _ => Quiet.pure _

theorem unaryEffort_quiet (op : Instr) (kind : IntWork.Op) (source : Reg) :
    Quiet (unaryEffort env op kind source : Exec env scope Int) :=
  (bounded_quiet.ifM (Quiet.pure _) (Quiet.pure _)).bind fun _ =>
    (getZ_quiet source).bind fun _ => Quiet.pure _

theorem opEffort_quiet (op : Instr) : Quiet (opEffort env op : Exec env scope Int) := by
  cases op with
  | add | sub | mul | div | mod => exact binaryEffort_quiet _ _ _ _
  | neg | abs => exact unaryEffort_quiet _ _ _
  | _ => exact Quiet.pure _

theorem chargedEffort_quiet (op : Instr) (strict : Bool) :
    Quiet (chargedEffort env op strict : Exec env scope Int) :=
  (opEffort_quiet op).ite (Quiet.pure _)

theorem reserveText_quiet (value : Value) :
    Quiet (reserveText env value : Exec env scope Bool) := by
  refine Quiet.read.bind fun st => ?_
  split
  any_goals exact (chargeBytes_quiet _ _ _).ite (Quiet.pure _)
  exact Quiet.pure _

theorem textRegister_quiet (cap : Int) (index : Reg) :
    Quiet (textRegister env cap index : Exec env scope Bool) :=
  (getr_quiet index).bind fun value => (reserveText_quiet value).ite (Quiet.pure _)

theorem hasInt_quiet (reg : Reg) : Quiet (hasInt env reg : Exec env scope Bool) :=
  (readInt_quiet reg).bind fun _ => Quiet.pure _

theorem batchCells_quiet (cap keys values : Int) (count index : Nat) :
    Quiet (batchCells env cap keys values count index : Exec env scope Bool) := by
  have cellOk : ∀ cell, Quiet (do
      return ((← findCell cell).map (textInputOk cap)).getD true : Exec env scope Bool) :=
    fun cell => (findCell_quiet cell).bind fun _ => Quiet.pure _
  induction count generalizing index with
  | zero => exact Quiet.pure _
  | succ count ih => exact (cellOk _).ifM ((cellOk _).ifM (ih _) (Quiet.pure _)) (Quiet.pure _)

theorem batchOk_quiet (cap : Int) (keys values count : Reg) :
    Quiet (batchOk env cap keys values count : Exec env scope Bool) :=
  (getZ_quiet count).bind fun _ => (getZ_quiet keys).bind fun _ =>
    (getZ_quiet values).bind fun _ =>
      ((batchCells_quiet _ _ _ _ _).ite (Quiet.pure _)).ite (Quiet.pure _)

theorem byteInputsOk_quiet (op : Instr) : Quiet (byteInputsOk env op : Exec env scope Bool) := by
  refine Quiet.read.bind fun st => ?_
  split
  · exact Quiet.pure _
  · have two : ∀ {first second : Exec env scope Bool},
        Quiet first → Quiet second → Quiet (allOf [first, second]) := by
      intro first second one other
      apply allOf_quiet
      simp [one, other]
    cases op with
    | sstore | fstore | spawn | spawn2 | strlen | sha256 | keccak256 | sdelk
    | skeys | parseInts => exact textRegister_quiet _ _
    | sstorek | concat | indexof | skeysPage =>
      exact two (textRegister_quiet _ _) (textRegister_quiet _ _)
    | substr | loadInt8BytesToMem | loadInt8B64ToMem | loadInt8Q16 | loadInt8Fp =>
      apply allOf_quiet
      simp [textRegister_quiet, hasInt_quiet]
    | sstoren => exact batchOk_quiet _ _ _ _
    | _ => exact Quiet.pure _

theorem reserveFhe_quiet (amount : Int) : Quiet (reserveFhe env amount : Exec env scope Bool) := by
  refine Quiet.read.bind fun st => ?_
  split
  · exact Quiet.pure _
  · refine Quiet.ite (Quiet.pure _) (Quiet.bind ?_ fun _ => Quiet.pure _)
    apply update_quiet
    intro st
    rfl

theorem fheKeyWork_quiet (reg : Option Reg) :
    Quiet (fheKeyWork env reg : Exec env scope (Option (Option Nat))) := by
  cases reg with
  | none => exact Quiet.pure _
  | some reg =>
    refine (getr_quiet reg).bind fun value => ?_
    split
    · exact Quiet.pure _
    · exact (reserveFhe_quiet _).ifM (Quiet.pure _) (Quiet.pure _)

theorem chargeFheWork_quiet (op : Instr) (kind : ViewOp) (left right : Reg) (pk : Option Reg) :
    Quiet (chargeFheWork env op kind left right pk : Exec env scope Bool) := by
  refine (fheKeyWork_quiet pk).bind fun key => (getr_quiet left).bind fun left =>
    (getr_quiet right).bind fun right => ?_
  dsimp only
  split
  · split
    · exact Quiet.pure _
    · exact (addDynEffort_quiet _).ifM (reserveFhe_quiet _) (Quiet.pure _)
  · exact Quiet.pure _

theorem prepareFheWork_quiet (op : Instr) :
    Quiet (prepareFheWork env op : Exec env scope Bool) := by
  refine Quiet.ite (Quiet.pure _) ?_
  split
  · exact Quiet.pure _
  · exact (chargeFheWork_quiet _ _ _ _ _).rescue (Quiet.pure _)

/-- Check and charge an instruction; whether to execute it. -/
def admission (env : Env) (op : Instr) : Exec env scope Bool := do
  if ← reserveNumbers env op then
    let strict ← strictOk env op
    let work ← chargedEffort env op strict
    if ← addZEffort env work then
      if strict then
        if ← byteInputsOk env op then prepareFheWork env op else return false
      else return false
    else return false
  else return false

theorem admission_quiet (op : Instr) : Quiet (admission env op : Exec env scope Bool) := by
  refine (reserveNumbers_quiet op).ifM ?_ (Quiet.pure _)
  refine (strictOk_quiet op).bind fun strict =>
    (chargedEffort_quiet op strict).bind fun work => (addZEffort_quiet work).ifM ?_ (Quiet.pure _)
  exact Quiet.ite
    ((byteInputsOk_quiet op).ifM (prepareFheWork_quiet op) (Quiet.pure _))
    (Quiet.pure _)

/-- An instruction is executed once it was admitted. -/
theorem execOne_eq (env : Env) (async : Bool) (op : Instr) :
    execOne env async op = (do if ← admission env op then perform env async op else revert) := by
  apply Chained.ext
  intro st
  simp only [execOne, admission, Chained.run_bind]
  rcases (reserveNumbers env op).run st with ⟨_ | reserved, first⟩
  · rfl
  · cases reserved
    · rfl
    · simp only [if_true, Chained.run_bind]
      rcases (strictOk env op).run first with ⟨_ | strict, second⟩
      · rfl
      · simp only
        rcases (chargedEffort env op strict).run second with ⟨_ | work, third⟩
        · rfl
        · simp only
          rcases (addZEffort env work).run third with ⟨_ | charged, fourth⟩
          · rfl
          · cases charged
            · rfl
            · cases strict
              · rfl
              · simp only [if_true, Chained.run_bind]
                rcases (byteInputsOk env op).run fourth with ⟨_ | sized, fifth⟩
                · rfl
                · cases sized <;> rfl

end Vm
end LiteNode
