import LiteNode.Aml.Check

/-!
# Typing rules

What the checker accepts, as rules: one rule for each kind of term. A term that
is inferred is derived by the rules, so that whatever holds of every derivation
holds of every term that is checked.
-/

namespace LiteNode
namespace Aml

/-- The effects, resources and flow of elements. -/
structure Parts where
  eff : Row
  res : Limit
  flow : Flow

/-- No elements. -/
def Parts.nil : Parts := ⟨∅, .one, .pure⟩

/-- An element before the others. -/
def Parts.cons (value : Info) (rest : Parts) : Parts where
  eff := value.eff ∪ rest.eff
  res := (value.res.add rest.res).succ
  flow := flowSeq value.flow rest.flow

/-- The variables of a binder are in scope in between, and are used there if they
are linear. -/
structure Scoped (bind : Bind) (env bodyEnv usedEnv env' : Scope) : Prop where
  opened : openBind bind env = .ok bodyEnv
  closed : closeBind bind usedEnv = .ok env'

mutual

/-- A term has an info in a scope, and leaves a scope. -/
inductive Infers : Scope → Term → Info → Scope → Prop
  | unit {env} : Infers env .unit (leaf .unit) env
  | bool {env value} : Infers env (.bool value) (leaf .bool) env
  | int {env value} : Infers env (.int value) (leaf .int) env
  | narrow {env sign bits value} (valid : (Typ.num sign bits).valid = true)
      (admitted : (Typ.num sign bits).admits value = true) :
      Infers env (.narrow (.num sign bits) value) (leaf (.num sign bits)) env
  | bytes {env len} {value : Bytes} (size : CNat.ofInt value.length = some len) :
      Infers env (.bytes value) (item (.bytes len) (Limit.make len).succ) env
  | vec {env env' elem len parts} {values : List Term} (valid : elem.valid = true)
      (size : CNat.ofInt values.length = some len)
      (elements : InfersVec elem env values parts env') :
      Infers env (.vec elem values) ⟨.vec len elem, parts.eff, parts.res, parts.flow⟩ env'
  | seq {env env' cap elem len pad parts} {values : List Term}
      (valid : (Typ.seq cap elem).valid = true) (size : CNat.ofInt values.length = some len)
      (padding : CNat.sub cap len = some pad) (elements : InfersVec elem env values parts env') :
      Infers env (.seq cap elem values)
        ⟨.seq cap elem, parts.eff, parts.res.add (Limit.make (pad + 1)), parts.flow⟩ env'
  | var {env env' id typ} (used : use id env = .ok (typ, env')) :
      Infers env (.var id) (leaf typ) env'
  | erased {env bodyEnv usedEnv env' bind value body valueInfo bodyInfo} (mul : bind.mul = .zero)
      (checked : Infers env value valueInfo env) (typ : bind.typ = valueInfo.typ)
      (pure : valueInfo.eff = ∅) (binder : Scoped bind env bodyEnv usedEnv env')
      (rest : Infers bodyEnv body bodyInfo usedEnv) :
      Infers env (.let' bind value body)
        { bodyInfo with
          flow := flowSeq valueInfo.flow bodyInfo.flow
          res := bodyInfo.res.succ } env'
  | bound {env valueEnv bodyEnv usedEnv env' bind value body valueInfo bodyInfo}
      (mul : bind.mul ≠ .zero) (first : Infers env value valueInfo valueEnv)
      (typ : bind.typ = valueInfo.typ) (binder : Scoped bind valueEnv bodyEnv usedEnv env')
      (rest : Infers bodyEnv body bodyInfo usedEnv) :
      Infers env (.let' bind value body) (Aml.seq bodyInfo.typ valueInfo bodyInfo) env'
  | if' {env guardEnv env' guard yes no guardInfo yesInfo noInfo}
      (first : Infers env guard guardInfo guardEnv) (test : guardInfo.typ = .bool)
      (accepted : Infers guardEnv yes yesInfo env') (refused : Infers guardEnv no noInfo env')
      (typ : yesInfo.typ = noInfo.typ) :
      Infers env (.if' guard yes no) (join yesInfo.typ guardInfo yesInfo noInfo) env'
  | pair {env leftEnv env' left right leftInfo rightInfo} (first : Infers env left leftInfo leftEnv)
      (second : Infers leftEnv right rightInfo env') :
      Infers env (.pair left right)
        (Aml.seq (.pair leftInfo.typ rightInfo.typ) leftInfo rightInfo) env'
  | unpair {env pairEnv leftEnv bodyEnv usedEnv rightEnv env' pair left right
        body pairInfo bodyInfo}
      (first : Infers env pair pairInfo pairEnv) (typ : pairInfo.typ = .pair left.typ right.typ)
      (outer : Scoped left pairEnv leftEnv rightEnv env')
      (inner : Scoped right leftEnv bodyEnv usedEnv rightEnv)
      (rest : Infers bodyEnv body bodyInfo usedEnv) :
      Infers env (.unpair pair left right body) (Aml.seq bodyInfo.typ pairInfo bodyInfo) env'
  | fst {env env' pair info left right} (first : Infers env pair info env')
      (typ : info.typ = .pair left right) (dropped : right.kind ≠ .res) :
      Infers env (.fst pair) (info.next left) env'
  | snd {env env' pair info left right} (first : Infers env pair info env')
      (typ : info.typ = .pair left right) (dropped : left.kind ≠ .res) :
      Infers env (.snd pair) (info.next right) env'
  | inl {env env' value right info} (valid : right.valid = true)
      (first : Infers env value info env') :
      Infers env (.inl value right) (info.next (.sum info.typ right)) env'
  | inr {env env' value left info} (valid : left.valid = true)
      (first : Infers env value info env') :
      Infers env (.inr left value) (info.next (.sum left info.typ)) env'
  | case {env valueEnv leftEnv leftUsed rightEnv rightUsed env' value left yes
        right no info yesInfo noInfo}
      (first : Infers env value info valueEnv) (sum : info.typ = .sum left.typ right.typ)
      (leftBinder : Scoped left valueEnv leftEnv leftUsed env')
      (accepted : Infers leftEnv yes yesInfo leftUsed)
      (rightBinder : Scoped right valueEnv rightEnv rightUsed env')
      (refused : Infers rightEnv no noInfo rightUsed) (typ : yesInfo.typ = noInfo.typ) :
      Infers env (.case value left yes right no) (join yesInfo.typ info yesInfo noInfo) env'
  | act {env env' atom body info} (first : Infers env body info env') :
      Infers env (.act atom body)
        { info with
          eff := insert atom info.eff
          res := info.res.succ
          flow := flowSeq (.action ⟨atom, info.typ, .direct⟩) info.flow } env'
  | arith {env leftEnv env' op left right leftInfo rightInfo}
      (first : Infers env left leftInfo leftEnv) (leftInt : leftInfo.typ = .int)
      (second : Infers leftEnv right rightInfo env') (rightInt : rightInfo.typ = .int) :
      Infers env (.arith op left right) (Aml.seq .int leftInfo rightInfo) env'
  | signs {env env' op value info} (first : Infers env value info env') (int : info.typ = .int) :
      Infers env (.signs op value) { info with res := info.res.succ } env'
  | fit {env env' sign bits value info} (valid : (Typ.num sign bits).valid = true)
      (first : Infers env value info env') (int : info.typ = .int) :
      Infers env (.fit (.num sign bits) value)
        { info with
          typ := .sum (.num sign bits) .int
          res := info.res.add (Limit.used 1 12) } env'
  | wide {env env' value info sign bits} (first : Infers env value info env')
      (num : info.typ = .num sign bits) :
      Infers env (.wide value) (info.next .int) env'
  | length {env env' value info cap elem} (first : Infers env value info env')
      (seq : info.typ = .seq cap elem) :
      Infers env (.length value) (info.next .int) env'
  | eq {env leftEnv env' typ left right leftInfo rightInfo}
      (first : Infers env left leftInfo leftEnv) (second : Infers leftEnv right rightInfo env')
      (valid : typ.valid = true) (leftTyp : leftInfo.typ = typ)
      (rightTyp : rightInfo.typ = typ) (equatable : typ.equatable = true) :
      Infers env (.eq typ left right)
        { Aml.seq .bool leftInfo rightInfo with
          res := (Aml.seq .bool leftInfo rightInfo).res.add (Limit.effort typ.eqWork) } env'
  | cmp {env leftEnv env' rel left right leftInfo rightInfo}
      (first : Infers env left leftInfo leftEnv) (leftInt : leftInfo.typ = .int)
      (second : Infers leftEnv right rightInfo env') (rightInt : rightInfo.typ = .int) :
      Infers env (.cmp rel left right) (Aml.seq .bool leftInfo rightInfo) env'
  | cat {env leftEnv env' left right leftInfo rightInfo leftLen rightLen len}
      (first : Infers env left leftInfo leftEnv) (second : Infers leftEnv right rightInfo env')
      (leftTyp : leftInfo.typ = .bytes leftLen) (rightTyp : rightInfo.typ = .bytes rightLen)
      (size : Typ.addLen leftLen rightLen = some len) :
      Infers env (.cat left right) (copySeq (.bytes len) len leftInfo rightInfo) env'
  | take {env env' len value info total} (first : Infers env value info env')
      (bytes : info.typ = .bytes total) (inside : CNat.le len total = true) :
      Infers env (.take len value) (copyOne (.bytes len) len info) env'
  | drop {env env' len value info total rest}
      (first : Infers env value info env') (bytes : info.typ = .bytes total)
      (inside : CNat.sub total len = some rest) :
      Infers env (.drop len value) (copyOne (.bytes rest) rest info) env'
  | vcat {env leftEnv env' left right leftInfo rightInfo leftLen rightLen len
        elem}
      (first : Infers env left leftInfo leftEnv) (second : Infers leftEnv right rightInfo env')
      (leftTyp : leftInfo.typ = .vec leftLen elem) (rightTyp : rightInfo.typ = .vec rightLen elem)
      (size : Typ.addLen leftLen rightLen = some len) :
      Infers env (.vcat left right) (copySeq (.vec len elem) len leftInfo rightInfo) env'
  | at' {env env' index value info len elem}
      (first : Infers env value info env') (vec : info.typ = .vec len elem)
      (inside : CNat.lt index len = true) (dropped : elem.kind ≠ .res) :
      Infers env (.at' index value) (info.next elem) env'
  | uncons {env env' value info len elem rest}
      (first : Infers env value info env') (vec : info.typ = .vec len elem)
      (inside : CNat.sub len 1 = some rest) :
      Infers env (.uncons value) (copyOne (.pair elem (.vec rest elem)) rest info) env'
  | vfold {env vectorEnv seedEnv itemEnv bodyEnv usedEnv stateEnv vector seed
        item state body vectorInfo seedInfo bodyInfo len}
      (first : Infers env vector vectorInfo vectorEnv)
      (turns : vectorInfo.typ = .vec len item.typ ∨ vectorInfo.typ = .seq len item.typ)
      (second : Infers vectorEnv seed seedInfo seedEnv) (seedTyp : seedInfo.typ = state.typ)
      (outer : Scoped item seedEnv itemEnv stateEnv seedEnv)
      (inner : Scoped state itemEnv bodyEnv usedEnv stateEnv)
      (rest : Infers bodyEnv body bodyInfo usedEnv) (bodyTyp : bodyInfo.typ = state.typ) :
      Infers env (.vfold vector seed item state body)
        (foldInfo len vectorInfo seedInfo bodyInfo) seedEnv
  | step {env capEnv env' cap value capInfo valueInfo kind} (first : Infers env cap capInfo capEnv)
      (second : Infers capEnv value valueInfo env') (held : capInfo.typ = .cap kind) :
      Infers env (.step cap value)
        { Aml.seq (.pair (.cap kind) valueInfo.typ) capInfo valueInfo with
          eff := insert (.write kind) (capInfo.eff ∪ valueInfo.eff)
          flow := flowSeq (flowSeq capInfo.flow valueInfo.flow)
            (.action ⟨.write kind, valueInfo.typ, .held kind⟩) } env'
  | close {env env' cap info kind} (first : Infers env cap info env')
      (held : info.typ = .cap kind) :
      Infers env (.close cap)
        { typ := .unit
          eff := insert (.close kind) info.eff
          res := info.res.succ
          flow := flowSeq info.flow (.action ⟨.close kind, .unit, .held kind⟩) } env'

/-- Elements are all of one type. -/
inductive InfersVec : Typ → Scope → List Term → Parts → Scope → Prop
  | nil {elem env} : InfersVec elem env [] .nil env
  | cons {elem env valueEnv env' value rest info parts}
      (first : Infers env value info valueEnv) (typ : info.typ = elem)
      (others : InfersVec elem valueEnv rest parts env') :
      InfersVec elem env (value :: rest) (.cons info parts) env'

end

/-! ## Terms that are inferred -/

variable {result : Unit}

theorem need_eq_ok {expected actual : Typ}
    (needed : need expected actual = .ok result) : expected = actual := by
  unfold need at needed
  split at needed
  · cases needed
  split at needed
  · cases needed
  split at needed
  · assumption
  · cases needed

theorem valid_of_need {expected actual : Typ}
    (needed : need expected actual = .ok result) : expected.valid = true := by
  unfold need at needed
  split at needed
  · cases needed
  · next valid => exact (Bool.not_eq_false _).mp valid

theorem check_eq_ok {passed : Bool} {error : CheckError}
    (checked : check passed error = .ok result) : passed = true := by
  unfold check at checked
  split at checked
  · assumption
  · cases checked

theorem sizeOf_eq_ok {len : Option Int} {error : CheckError} {size : Int}
    (sized : sizeOf len error = .ok size) : len = some size := by
  unfold sizeOf at sized
  split at sized
  · cases sized
    rfl
  · cases sized

mutual

/-- A term that is inferred is derived by the rules. -/
theorem infers_of_infer : ∀ {term : Term} {env env' : Scope} {info : Info},
    infer env term = .ok (info, env') → Infers env term info env'
  | .unit, _, _, _, inferred => by
    rw [infer] at inferred
    cases inferred
    exact .unit
  | .bool _, _, _, _, inferred => by
    rw [infer] at inferred
    cases inferred
    exact .bool
  | .int _, _, _, _, inferred => by
    rw [infer] at inferred
    cases inferred
    exact .int
  | .narrow typ value, _, _, _, inferred => by
    cases typ with
    | num sign bits =>
      rw [infer] at inferred
      split at inferred
      · next passed =>
        cases inferred
        obtain ⟨valid, admitted⟩ := Bool.and_eq_true_iff.mp passed
        exact .narrow valid admitted
      · cases inferred
    | _ => simp [infer] at inferred
  | .bytes value, _, _, _, inferred => by
    rw [infer] at inferred
    obtain ⟨len, sized, rest⟩ := bind_eq_ok inferred
    cases rest
    exact .bytes (sizeOf_eq_ok sized)
  | .vec elem values, _, _, _, inferred => by
    rw [infer] at inferred
    obtain ⟨_, valid, rest⟩ := bind_eq_ok inferred
    obtain ⟨len, sized, rest⟩ := bind_eq_ok rest
    obtain ⟨⟨⟨eff, res, flow⟩, env'⟩, elements, rest⟩ := bind_eq_ok rest
    cases rest
    exact .vec (check_eq_ok valid) (sizeOf_eq_ok sized) (infersVec_of_inferVec elements)
  | .seq cap elem values, _, _, _, inferred => by
    rw [infer] at inferred
    obtain ⟨_, valid, rest⟩ := bind_eq_ok inferred
    obtain ⟨len, sized, rest⟩ := bind_eq_ok rest
    obtain ⟨_, fits, rest⟩ := bind_eq_ok rest
    obtain ⟨⟨⟨eff, res, flow⟩, env'⟩, elements, rest⟩ := bind_eq_ok rest
    obtain ⟨pad, padding, rest⟩ := bind_eq_ok rest
    cases rest
    exact .seq (check_eq_ok valid) (sizeOf_eq_ok sized)
      (sizeOf_eq_ok padding) (infersVec_of_inferVec elements)
  | .var id, _, _, _, inferred => by
    rw [infer] at inferred
    obtain ⟨_, _, rest⟩ := bind_eq_ok inferred
    obtain ⟨⟨typ, env'⟩, used, rest⟩ := bind_eq_ok rest
    cases rest
    exact .var used
  | .let' bind value body, _, _, _, inferred => by
    rw [infer] at inferred
    obtain ⟨_, _, rest⟩ := bind_eq_ok inferred
    obtain ⟨⟨valueInfo, valueEnv⟩, first, rest⟩ := bind_eq_ok rest
    obtain ⟨_, typ, rest⟩ := bind_eq_ok rest
    split at rest
    · next mul =>
      obtain ⟨_, pure, rest⟩ := bind_eq_ok rest
      obtain ⟨_, same, rest⟩ := bind_eq_ok rest
      obtain ⟨bodyEnv, opened, rest⟩ := bind_eq_ok rest
      obtain ⟨⟨bodyInfo, usedEnv⟩, second, rest⟩ := bind_eq_ok rest
      obtain ⟨env', closed, rest⟩ := bind_eq_ok rest
      cases rest
      cases of_decide_eq_true (check_eq_ok same)
      exact .erased mul (infers_of_infer first) (need_eq_ok typ)
        (of_decide_eq_true (check_eq_ok pure)) ⟨opened, closed⟩
        (infers_of_infer second)
    all_goals
      next mul =>
      obtain ⟨bodyEnv, opened, rest⟩ := bind_eq_ok rest
      obtain ⟨⟨bodyInfo, usedEnv⟩, second, rest⟩ := bind_eq_ok rest
      obtain ⟨env', closed, rest⟩ := bind_eq_ok rest
      cases rest
      exact .bound (by simp [mul]) (infers_of_infer first) (need_eq_ok typ)
        ⟨opened, closed⟩ (infers_of_infer second)
  | .if' guard yes no, _, _, _, inferred => by
    rw [infer] at inferred
    obtain ⟨⟨guardInfo, guardEnv⟩, first, rest⟩ := bind_eq_ok inferred
    obtain ⟨_, test, rest⟩ := bind_eq_ok rest
    obtain ⟨⟨yesInfo, yesEnv⟩, accepted, rest⟩ := bind_eq_ok rest
    obtain ⟨⟨noInfo, noEnv⟩, refused, rest⟩ := bind_eq_ok rest
    obtain ⟨_, typ, rest⟩ := bind_eq_ok rest
    obtain ⟨_, same, rest⟩ := bind_eq_ok rest
    cases rest
    cases of_decide_eq_true (check_eq_ok same)
    exact .if' (infers_of_infer first) (need_eq_ok test).symm
      (infers_of_infer accepted) (infers_of_infer refused) (need_eq_ok typ)
  | .pair left right, _, _, _, inferred => by
    rw [infer] at inferred
    obtain ⟨⟨leftInfo, leftEnv⟩, first, rest⟩ := bind_eq_ok inferred
    obtain ⟨⟨rightInfo, rightEnv⟩, second, rest⟩ := bind_eq_ok rest
    cases rest
    exact .pair (infers_of_infer first) (infers_of_infer second)
  | .unpair pair left right body, _, _, _, inferred => by
    rw [infer] at inferred
    obtain ⟨⟨pairInfo, pairEnv⟩, first, rest⟩ := bind_eq_ok inferred
    dsimp only at rest
    split at rest
    · next leftType rightType typ =>
      obtain ⟨_, leftTyp, rest⟩ := bind_eq_ok rest
      obtain ⟨_, rightTyp, rest⟩ := bind_eq_ok rest
      obtain ⟨leftEnv, opened, rest⟩ := bind_eq_ok rest
      obtain ⟨bodyEnv, opened', rest⟩ := bind_eq_ok rest
      obtain ⟨⟨bodyInfo, usedEnv⟩, second, rest⟩ := bind_eq_ok rest
      obtain ⟨rightEnv, closed', rest⟩ := bind_eq_ok rest
      obtain ⟨env', closed, rest⟩ := bind_eq_ok rest
      cases rest
      rw [need_eq_ok leftTyp, need_eq_ok rightTyp] at typ
      exact .unpair (infers_of_infer first) typ ⟨opened, closed⟩
        ⟨opened', closed'⟩ (infers_of_infer second)
    · cases rest
  | .fst pair, _, _, _, inferred => by
    rw [infer] at inferred
    obtain ⟨⟨info, env'⟩, first, rest⟩ := bind_eq_ok inferred
    dsimp only at rest
    split at rest
    · next typ =>
      obtain ⟨dropped, rest⟩ := ite_error_eq_ok_iff.mp rest
      cases rest
      exact .fst (infers_of_infer first) typ dropped
    · cases rest
  | .snd pair, _, _, _, inferred => by
    rw [infer] at inferred
    obtain ⟨⟨info, env'⟩, first, rest⟩ := bind_eq_ok inferred
    dsimp only at rest
    split at rest
    · next typ =>
      obtain ⟨dropped, rest⟩ := ite_error_eq_ok_iff.mp rest
      cases rest
      exact .snd (infers_of_infer first) typ dropped
    · cases rest
  | .inl value right, _, _, _, inferred => by
    rw [infer] at inferred
    obtain ⟨_, valid, rest⟩ := bind_eq_ok inferred
    obtain ⟨⟨info, env'⟩, first, rest⟩ := bind_eq_ok rest
    cases rest
    exact .inl (check_eq_ok valid) (infers_of_infer first)
  | .inr left value, _, _, _, inferred => by
    rw [infer] at inferred
    obtain ⟨_, valid, rest⟩ := bind_eq_ok inferred
    obtain ⟨⟨info, env'⟩, first, rest⟩ := bind_eq_ok rest
    cases rest
    exact .inr (check_eq_ok valid) (infers_of_infer first)
  | .case value left yes right no, _, _, _, inferred => by
    rw [infer] at inferred
    obtain ⟨⟨info, valueEnv⟩, first, rest⟩ := bind_eq_ok inferred
    dsimp only at rest
    split at rest
    · next leftType rightType sum =>
      obtain ⟨_, leftTyp, rest⟩ := bind_eq_ok rest
      obtain ⟨_, rightTyp, rest⟩ := bind_eq_ok rest
      obtain ⟨leftEnv, opened, rest⟩ := bind_eq_ok rest
      obtain ⟨⟨yesInfo, leftUsed⟩, accepted, rest⟩ := bind_eq_ok rest
      obtain ⟨env', closed, rest⟩ := bind_eq_ok rest
      obtain ⟨rightEnv, opened', rest⟩ := bind_eq_ok rest
      obtain ⟨⟨noInfo, rightUsed⟩, refused, rest⟩ := bind_eq_ok rest
      obtain ⟨noEnv, closed', rest⟩ := bind_eq_ok rest
      obtain ⟨_, typ, rest⟩ := bind_eq_ok rest
      obtain ⟨_, same, rest⟩ := bind_eq_ok rest
      cases rest
      cases of_decide_eq_true (check_eq_ok same)
      rw [need_eq_ok leftTyp, need_eq_ok rightTyp] at sum
      exact .case (infers_of_infer first) sum ⟨opened, closed⟩
        (infers_of_infer accepted) ⟨opened', closed'⟩
        (infers_of_infer refused) (need_eq_ok typ)
    · cases rest
  | .act atom body, _, _, _, inferred => by
    rw [infer] at inferred
    obtain ⟨_, _, rest⟩ := bind_eq_ok inferred
    obtain ⟨⟨info, env'⟩, first, rest⟩ := bind_eq_ok rest
    cases rest
    exact .act (infers_of_infer first)
  | .arith op left right, _, _, _, inferred => by
    rw [infer] at inferred
    obtain ⟨⟨leftInfo, leftEnv⟩, first, rest⟩ := bind_eq_ok inferred
    obtain ⟨_, leftInt, rest⟩ := bind_eq_ok rest
    obtain ⟨⟨rightInfo, rightEnv⟩, second, rest⟩ := bind_eq_ok rest
    obtain ⟨_, rightInt, rest⟩ := bind_eq_ok rest
    cases rest
    exact .arith (infers_of_infer first) (need_eq_ok leftInt).symm
      (infers_of_infer second) (need_eq_ok rightInt).symm
  | .signs op value, _, _, _, inferred => by
    rw [infer] at inferred
    obtain ⟨⟨info, env'⟩, first, rest⟩ := bind_eq_ok inferred
    obtain ⟨_, int, rest⟩ := bind_eq_ok rest
    cases rest
    exact .signs (infers_of_infer first) (need_eq_ok int).symm
  | .fit target value, _, _, _, inferred => by
    cases target with
    | num sign bits =>
      rw [infer] at inferred
      obtain ⟨_, num, rest⟩ := bind_eq_ok inferred
      obtain ⟨⟨info, env'⟩, first, rest⟩ := bind_eq_ok rest
      obtain ⟨_, int, rest⟩ := bind_eq_ok rest
      cases rest
      exact .fit (check_eq_ok num) (infers_of_infer first) (need_eq_ok int).symm
    | _ => simp [infer] at inferred
  | .wide value, _, _, _, inferred => by
    rw [infer] at inferred
    obtain ⟨⟨info, env'⟩, first, rest⟩ := bind_eq_ok inferred
    dsimp only at rest
    split at rest
    · next num =>
      cases rest
      exact .wide (infers_of_infer first) num
    · cases rest
  | .length value, _, _, _, inferred => by
    rw [infer] at inferred
    obtain ⟨⟨info, env'⟩, first, rest⟩ := bind_eq_ok inferred
    dsimp only at rest
    split at rest
    · next seq =>
      cases rest
      exact .length (infers_of_infer first) seq
    · cases rest
  | .eq typ left right, _, _, _, inferred => by
    rw [infer] at inferred
    obtain ⟨⟨leftInfo, leftEnv⟩, first, rest⟩ := bind_eq_ok inferred
    obtain ⟨⟨rightInfo, rightEnv⟩, second, rest⟩ := bind_eq_ok rest
    obtain ⟨_, leftTyp, rest⟩ := bind_eq_ok rest
    obtain ⟨_, rightTyp, rest⟩ := bind_eq_ok rest
    obtain ⟨_, equatable, rest⟩ := bind_eq_ok rest
    cases rest
    exact .eq (infers_of_infer first) (infers_of_infer second)
      (valid_of_need leftTyp) (need_eq_ok leftTyp).symm (need_eq_ok rightTyp).symm
      (check_eq_ok equatable)
  | .cmp rel left right, _, _, _, inferred => by
    rw [infer] at inferred
    obtain ⟨⟨leftInfo, leftEnv⟩, first, rest⟩ := bind_eq_ok inferred
    obtain ⟨_, leftInt, rest⟩ := bind_eq_ok rest
    obtain ⟨⟨rightInfo, rightEnv⟩, second, rest⟩ := bind_eq_ok rest
    obtain ⟨_, rightInt, rest⟩ := bind_eq_ok rest
    cases rest
    exact .cmp (infers_of_infer first) (need_eq_ok leftInt).symm
      (infers_of_infer second) (need_eq_ok rightInt).symm
  | .cat left right, _, _, _, inferred => by
    rw [infer] at inferred
    obtain ⟨⟨leftInfo, leftEnv⟩, first, rest⟩ := bind_eq_ok inferred
    obtain ⟨⟨rightInfo, rightEnv⟩, second, rest⟩ := bind_eq_ok rest
    dsimp only at rest
    split at rest
    · next leftTyp rightTyp =>
      obtain ⟨len, size, rest⟩ := bind_eq_ok rest
      cases rest
      exact .cat (infers_of_infer first) (infers_of_infer second) leftTyp
        rightTyp (sizeOf_eq_ok size)
    · cases rest
    · cases rest
  | .take len value, _, _, _, inferred => by
    rw [infer] at inferred
    obtain ⟨⟨info, env'⟩, first, rest⟩ := bind_eq_ok inferred
    dsimp only at rest
    split at rest
    · next bytes =>
      obtain ⟨_, inside, rest⟩ := bind_eq_ok rest
      cases rest
      exact .take (infers_of_infer first) bytes (check_eq_ok inside)
    · cases rest
  | .drop len value, _, _, _, inferred => by
    rw [infer] at inferred
    obtain ⟨⟨info, env'⟩, first, rest⟩ := bind_eq_ok inferred
    dsimp only at rest
    split at rest
    · next bytes =>
      obtain ⟨_, inside, rest⟩ := bind_eq_ok rest
      cases rest
      exact .drop (infers_of_infer first) bytes (sizeOf_eq_ok inside)
    · cases rest
  | .vcat left right, _, _, _, inferred => by
    rw [infer] at inferred
    obtain ⟨⟨leftInfo, leftEnv⟩, first, rest⟩ := bind_eq_ok inferred
    obtain ⟨⟨rightInfo, rightEnv⟩, second, rest⟩ := bind_eq_ok rest
    dsimp only at rest
    split at rest
    · next leftTyp rightTyp =>
      obtain ⟨_, same, rest⟩ := bind_eq_ok rest
      obtain ⟨len, size, rest⟩ := bind_eq_ok rest
      cases rest
      rw [← need_eq_ok same] at rightTyp
      exact .vcat (infers_of_infer first) (infers_of_infer second) leftTyp
        rightTyp (sizeOf_eq_ok size)
    · cases rest
    · cases rest
  | .at' index value, _, _, _, inferred => by
    rw [infer] at inferred
    obtain ⟨⟨info, env'⟩, first, rest⟩ := bind_eq_ok inferred
    dsimp only at rest
    split at rest
    · next vec =>
      obtain ⟨inside, rest⟩ := ite_error_eq_ok_iff.mp rest
      obtain ⟨dropped, rest⟩ := ite_error_eq_ok_iff.mp rest
      cases rest
      exact .at' (infers_of_infer first) vec ((Bool.not_eq_false _).mp inside) dropped
    · cases rest
  | .uncons value, _, _, _, inferred => by
    rw [infer] at inferred
    obtain ⟨⟨info, env'⟩, first, rest⟩ := bind_eq_ok inferred
    dsimp only at rest
    split at rest
    · next vec =>
      obtain ⟨len, inside, rest⟩ := bind_eq_ok rest
      cases rest
      exact .uncons (infers_of_infer first) vec (sizeOf_eq_ok inside)
    · cases rest
  | .vfold vector seed item state body, _, _, _, inferred => by
    rw [infer] at inferred
    obtain ⟨⟨vectorInfo, vectorEnv⟩, first, rest⟩ := bind_eq_ok inferred
    dsimp only at rest
    split at rest
    case h_3 => cases rest
    all_goals
      next len elem turns =>
      obtain ⟨_, itemTyp, rest⟩ := bind_eq_ok rest
      obtain ⟨⟨seedInfo, seedEnv⟩, second, rest⟩ := bind_eq_ok rest
      obtain ⟨_, seedTyp, rest⟩ := bind_eq_ok rest
      obtain ⟨itemEnv, opened, rest⟩ := bind_eq_ok rest
      obtain ⟨bodyEnv, opened', rest⟩ := bind_eq_ok rest
      obtain ⟨⟨bodyInfo, usedEnv⟩, third, rest⟩ := bind_eq_ok rest
      obtain ⟨_, bodyTyp, rest⟩ := bind_eq_ok rest
      obtain ⟨stateEnv, closed', rest⟩ := bind_eq_ok rest
      obtain ⟨lastEnv, closed, rest⟩ := bind_eq_ok rest
      obtain ⟨_, same, rest⟩ := bind_eq_ok rest
      cases rest
      cases of_decide_eq_true (check_eq_ok same)
      rw [need_eq_ok itemTyp] at turns
      refine .vfold (infers_of_infer first) ?_ (infers_of_infer second)
        (need_eq_ok seedTyp) ⟨opened, closed⟩ ⟨opened', closed'⟩
        (infers_of_infer third)
        ((need_eq_ok bodyTyp).symm.trans (need_eq_ok seedTyp))
      simp [turns]
  | .step cap value, _, _, _, inferred => by
    rw [infer] at inferred
    obtain ⟨⟨capInfo, capEnv⟩, first, rest⟩ := bind_eq_ok inferred
    obtain ⟨⟨valueInfo, env'⟩, second, rest⟩ := bind_eq_ok rest
    dsimp only at rest
    split at rest
    · next held =>
      cases rest
      exact .step (infers_of_infer first) (infers_of_infer second) held
    · cases rest
  | .close cap, _, _, _, inferred => by
    rw [infer] at inferred
    obtain ⟨⟨info, env'⟩, first, rest⟩ := bind_eq_ok inferred
    dsimp only at rest
    split at rest
    · next held =>
      cases rest
      exact .close (infers_of_infer first) held
    · cases rest

theorem infersVec_of_inferVec : ∀ {values : List Term} {elem : Typ}
    {env env' : Scope} {eff : Row} {res : Limit} {flow : Flow},
    inferVec elem env values = .ok ((eff, res, flow), env') →
      InfersVec elem env values ⟨eff, res, flow⟩ env'
  | [], _, _, _, _, _, _, inferred => by
    rw [inferVec] at inferred
    cases inferred
    exact .nil
  | value :: rest, _, _, _, _, _, _, inferred => by
    rw [inferVec] at inferred
    obtain ⟨⟨info, valueEnv⟩, first, others⟩ := bind_eq_ok inferred
    obtain ⟨_, typ, others⟩ := bind_eq_ok others
    obtain ⟨⟨⟨eff, res, flow⟩, env'⟩, elements, others⟩ := bind_eq_ok others
    cases others
    exact .cons (infers_of_infer first) (need_eq_ok typ).symm (infersVec_of_inferVec elements)

end

end Aml
end LiteNode
