import Mathlib.Data.List.Forall2
import SplTyping.Proofs.CheckedCopies

namespace SplTyping

/-!
# Putting copies into the tree keeps what is known

A step that puts copies into a tree takes each copy at most once. If the nodes
of the tree and all copies are good, then afterwards every call in the tree
meets its arguments and every value in it is free of `Void`: a call that waited
is now shown by its copy, and the copy was looked at where its value is needed.
-/

/-- Started with good copies, a step returns what is asked and leaves good copies. -/
def Yields
    {α : Type}
    (vouched : CallId → Prop)
    (step : SettleM α)
    (post : α → Prop) :
    Prop :=
  ∀ copies, CopiesGood vouched copies →
    post (step.run copies).1 ∧ CopiesGood vouched (step.run copies).2

namespace Yields

variable {α β : Type} {vouched : CallId → Prop}

theorem pure
    {value : α}
    {post : α → Prop}
    (holds : post value) :
    Yields vouched (Pure.pure value) post :=
  fun _ good => ⟨holds, good⟩

/-- Steps that put copies in may follow each other. -/
theorem bind
    {step : SettleM α}
    {next : α → SettleM β}
    {middle : α → Prop}
    {post : β → Prop}
    (first : Yields vouched step middle)
    (second : ∀ value, middle value → Yields vouched (next value) post) :
    Yields vouched (step >>= next) post := by
  intro copies good
  obtain ⟨holds, left⟩ := first copies good
  exact second _ holds _ left

/-- What a step returns may be weakened. -/
theorem mono
    {step : SettleM α}
    {strong post : α → Prop}
    (yields : Yields vouched step strong)
    (weakens : ∀ value, strong value → post value) :
    Yields vouched step post := by
  intro copies good
  obtain ⟨holds, left⟩ := yields copies good
  exact ⟨weakens _ holds, left⟩

/-- A step that is done for each item yields for each of them. -/
theorem mapM
    {step : α → SettleM β}
    {post : β → Prop}
    {items : List α}
    (each : ∀ item ∈ items, Yields vouched (step item) post) :
    Yields vouched (items.mapM step) fun results =>
      ∀ result ∈ results, post result := by
  induction items with
  | nil => exact .pure nofun
  | cons item rest inductionHypothesis =>
      obtain ⟨itemYields, restYields⟩ := List.forall_mem_cons.mp each
      rw [List.mapM_cons]
      exact itemYields.bind fun _ itemHolds =>
        (inductionHypothesis restYields).bind fun _ restHolds =>
          .pure (List.forall_mem_cons.mpr ⟨itemHolds, restHolds⟩)

end Yields

/-- Copies stay good when one is taken. -/
theorem CopiesGood.erase
    {vouched : CallId → Prop}
    {copies : ResolvedCalls}
    (good : CopiesGood vouched copies)
    (id : CallId) :
    CopiesGood vouched (copies.erase id) := by
  have kept {other : CallId} {copy : Call}
      (recorded : (copies.erase id).get? other = some copy) :
      copies.get? other = some copy := by
    rw [Table.get?_erase] at recorded
    split at recorded
    · cases recorded
    · exact recorded
  exact
    { stamped := fun other copy recorded =>
        good.stamped other copy (kept recorded)
      nodes := fun other copy recorded => good.nodes other copy (kept recorded)
      voidFree := fun other copy recorded =>
        good.voidFree other copy (kept recorded) }

/-- What is known about the copy that is taken for a call. -/
def CopyTaken
    (vouched : CallId → Prop)
    (waiting : Option CallId) :
    Option Call → Prop
  | none => True
  | some copy =>
      ∃ id, waiting = some id ∧ copy.waiting.isSome = true ∧
        NodesGood vouched copy.calls copy.values ∧
        (vouched id → (Expr.call copy).VoidFree)

/-- The copy taken for a call is good, and so are those left. -/
theorem takeCopy_yields
    (vouched : CallId → Prop)
    (waiting : Option CallId) :
    Yields vouched (takeCopy waiting) (CopyTaken vouched waiting) := by
  intro copies good
  cases waiting with
  | none => exact ⟨trivial, good⟩
  | some id =>
      cases recorded : copies.get? id with
      | none =>
          have run : (takeCopy (some id)).run copies = (none, copies) := by
            simp only [takeCopy, StateT.run_bind, StateT.run_get, pure_bind,
              recorded]
            rfl
          rw [run]
          exact ⟨trivial, good⟩
      | some copy =>
          have run :
              (takeCopy (some id)).run copies =
                (some copy, copies.erase id) := by
            simp only [takeCopy, StateT.run_bind, StateT.run_get, pure_bind,
              recorded]
            rfl
          rw [run]
          exact ⟨⟨id, rfl, good.stamped id copy recorded,
            good.nodes id copy recorded, good.voidFree id copy recorded⟩,
            good.erase id⟩

/-- No call is left that has to be vouched for. -/
abbrev anyCall : CallId → Prop :=
  fun _ => True

/-- What an expression shows is kept, unless a copy has taken its place. -/
structure Expr.Kept (expr expr' : Expr) : Prop where
  stamped : expr'.stamp?.isSome = expr.stamp?.isSome
  recorded : expr.stamp? = none → expr'.ty? = expr.ty?
  shown : expr.stamp? = none → ∀ ty, expr.Shown ty → expr'.Shown ty
  argsPlain : expr.stamp? = none → expr'.ArgsPlain → expr.ArgsPlain
  initPlain : expr.stamp? = none → expr'.InitPlain → expr.InitPlain

/-- What is known about an expression into which copies have been put. -/
structure Expr.SettledAs
    (vouched : CallId → Prop)
    (expr expr' : Expr) :
    Prop where
  kept : expr.Kept expr'
  nodes : NodesGood anyCall expr'.calls expr'.values
  voidFree :
    ∀ agrees, ValueGood vouched ⟨expr, agrees⟩ →
      (Value.mk expr' agrees).VoidFree

namespace Expr.SettledAs

variable {vouched : CallId → Prop} {expr expr' : Expr}
variable {args args' : List Expr}

/-- If no number is left, there was none: a copy keeps its number. -/
theorem unstamped
    (settled : SettledAs vouched expr expr')
    (isNone : expr'.stamp? = none) :
    expr.stamp? = none := by
  rw [← Option.isNone_iff_eq_none, ← Option.not_isSome,
    ← settled.kept.stamped, isNone]
  rfl

/-- An expression that is not a call is shown as before. -/
theorem of_shown
    (isNone : expr.stamp? = none)
    (isNone' : expr'.stamp? = none)
    (recorded : expr'.ty? = expr.ty?)
    (shown : ∀ ty, expr.Shown ty → expr'.Shown ty)
    (argsPlain : expr.ArgsPlain)
    (initPlain : expr.InitPlain)
    (nodes : NodesGood anyCall expr'.calls expr'.values) :
    SettledAs vouched expr expr' where
  kept :=
    { stamped := by rw [isNone, isNone']
      recorded := fun _ => recorded
      shown := fun _ => shown
      argsPlain := fun _ _ => argsPlain
      initPlain := fun _ _ => initPlain }
  nodes := nodes
  voidFree := by
    intro agrees good _ ty isTy
    rw [recorded] at isTy
    obtain ⟨wasShown, isValue⟩ := good.1 (Or.inl argsPlain) ty isTy
    exact ⟨shown ty wasShown, isValue⟩

/-- A place that is read shows what it did. -/
theorem read
    {place place' : Place}
    (sameSlot : place'.mark = place.mark)
    (nodes : NodesGood anyCall place'.calls place'.values) :
    SettledAs vouched (.read place) (.read place') := by
  have sameTy : place'.mark.ty = place.mark.ty := congrArg Mark.ty sameSlot
  exact .of_shown rfl rfl sameTy (fun _ shown => sameTy.trans shown) trivial
    trivial nodes

/-- A value is good after copies have been put into it. -/
theorem valueGood
    {agrees : Bool}
    (settled : SettledAs vouched expr expr')
    (good : ValueGood vouched ⟨expr, agrees⟩) :
    ValueGood anyCall ⟨expr', agrees⟩ :=
  ⟨settled.voidFree agrees good, fun _ _ => trivial⟩

/-- An expression that is plain at the end was plain at first. -/
theorem plain
    (settled : SettledAs vouched expr expr')
    (isPlain : expr'.Plain) :
    expr.Plain := by
  rw [plain_iff] at isPlain ⊢
  cases isStamp : expr.stamp? with
  | some id => exact Or.inl rfl
  | none =>
      rcases isPlain with stamped | ⟨initPlain, ground⟩
      · rw [settled.kept.stamped, isStamp] at stamped
        cases stamped
      · rw [settled.kept.recorded isStamp] at ground
        exact Or.inr ⟨settled.kept.initPlain isStamp initPlain, ground⟩

theorem plainAll
    (settled : List.Forall₂ (SettledAs vouched) args args')
    (arePlain : ∀ arg ∈ args', arg.Plain) :
    ∀ arg ∈ args, arg.Plain := by
  induction settled with
  | nil => exact arePlain
  | cons head _ inductionHypothesis =>
      obtain ⟨headPlain, restPlain⟩ := List.forall_mem_cons.mp arePlain
      exact List.forall_mem_cons.mpr
        ⟨head.plain headPlain, inductionHypothesis restPlain⟩

/-- Arguments that are plain up to the last one were so at first. -/
theorem plainInit
    (settled : List.Forall₂ (SettledAs vouched) args args')
    (arePlain : PlainInit args') :
    PlainInit args := by
  induction settled with
  | nil => trivial
  | cons head rest inductionHypothesis =>
      cases rest with
      | nil => trivial
      | cons => exact ⟨head.plain arePlain.1, inductionHypothesis arePlain.2⟩

/-- Arguments show the types that they did. -/
theorem argsShow
    {types : List Ty}
    (settled : List.Forall₂ (SettledAs vouched) args args')
    (shows : ArgsShow args types) :
    ArgsShow args' types := by
  induction settled generalizing types with
  | nil => exact shows
  | cons head _ inductionHypothesis =>
      cases shows with
      | cons shown rest =>
          refine .cons (fun isNone initPlain => ?_) (inductionHypothesis rest)
          have wasNone := head.unstamped isNone
          exact head.kept.shown wasNone _
            (shown wasNone (head.kept.initPlain wasNone initPlain))

/-- All nodes of arguments are good at the end. -/
theorem nodesAll
    (settled : List.Forall₂ (SettledAs vouched) args args') :
    NodesGood anyCall (callsAll args') (valuesAll args') := by
  induction settled with
  | nil => exact .nil
  | cons head _ inductionHypothesis =>
      exact head.nodes.append inductionHypothesis

/--
Arguments that are good values are so at the end, with no number vouched for.
-/
theorem valuesGood
    (settled : List.Forall₂ (SettledAs vouched) args args')
    (good : ∀ arg ∈ args, ValueGood vouched ⟨arg, false⟩) :
    ∀ arg ∈ args', ValueGood anyCall ⟨arg, false⟩ := by
  induction settled with
  | nil => exact List.forall_mem_nil _
  | cons head _ inductionHypothesis =>
      obtain ⟨headGood, restGood⟩ := List.forall_mem_cons.mp good
      exact List.forall_mem_cons.mpr
        ⟨head.valueGood headGood, inductionHypothesis restGood⟩

end Expr.SettledAs

/-- What is known about a copy into whose arguments copies have been put. -/
structure CopySettled (copy copy' : Call) : Prop where
  sameStamp : copy'.waiting = copy.waiting
  sameSlot : copy'.mark = copy.mark
  argsPlain : (Expr.call copy').ArgsPlain → (Expr.call copy).ArgsPlain
  nodes : NodesGood anyCall copy'.calls copy'.values

/-- A way to go on inside of copies that settles good ones. -/
def EntersCopies
    (vouched : CallId → Prop)
    (enter : Call → SettleM Call) :
    Prop :=
  ∀ copy, NodesGood vouched copy.calls copy.values →
    Yields vouched (enter copy) (CopySettled copy)

/-- The copy of a call is shown in its place. -/
theorem CopySettled.settledAs
    {vouched : CallId → Prop}
    {call copy copy' : Call}
    (settled : CopySettled copy copy')
    (taken : CopyTaken vouched call.waiting (some copy)) :
    Expr.SettledAs vouched (.call call) (.call copy') := by
  obtain ⟨id, isStamp, stamped, _, voidFree⟩ := taken
  have wasStamped : (Expr.call call).stamp? = some id := isStamp
  have notNone : (Expr.call call).stamp? ≠ none := by
    rw [wasStamped]
    exact Option.some_ne_none id
  have isStamped : (Expr.call copy').stamp?.isSome = true := by
    rw [Expr.stamp?, settled.sameStamp, stamped]
  have sameTy : copy'.mark.ty = copy.mark.ty :=
    congrArg Mark.ty settled.sameSlot
  refine
    { kept :=
        { stamped := by
            rw [wasStamped, isStamped]
            rfl
          recorded := fun isNone => absurd isNone notNone
          shown := fun isNone => absurd isNone notNone
          argsPlain := fun isNone => absurd isNone notNone
          initPlain := fun isNone => absurd isNone notNone }
      nodes := settled.nodes
      voidFree := fun agrees good plain ty isTy => ?_ }
  have argsPlain : (Expr.call copy').ArgsPlain := by
    rcases plain with argsPlain | ⟨_, isNone, _⟩
    · exact argsPlain
    · rw [isNone] at isStamped
      cases isStamped
  have isTy : (Expr.call copy).ty? = some ty := by
    rw [Expr.ty?, ← sameTy]
    exact isTy
  obtain ⟨⟨params, recorded⟩, isValue⟩ :=
    voidFree (good.2 id wasStamped) (settled.argsPlain argsPlain) ty isTy
  exact ⟨⟨params, sameTy.trans recorded⟩, isValue⟩

section Expressions

variable {vouched : CallId → Prop} {enter : Call → SettleM Call}

/-- A call without a copy keeps its slot. -/
theorem Expr.SettledAs.call
    {callee : Name}
    {args args' : List Expr}
    {mark : Mark}
    {waiting : Option CallId}
    (settled : List.Forall₂ (Expr.SettledAs vouched) args args')
    (good :
      NodesGood vouched (Call.calls ⟨callee, args, mark, waiting⟩)
        (Call.values ⟨callee, args, mark, waiting⟩)) :
    Expr.SettledAs vouched (.call ⟨callee, args, mark, waiting⟩)
      (.call ⟨callee, args', mark, waiting⟩) := by
  obtain ⟨meets, _⟩ := List.forall_mem_cons.mp good.calls
  obtain ⟨argsGood, _⟩ := List.forall_mem_append.mp good.values
  have argsPlain := plainAll settled
  have initPlain := plainInit settled
  have nodes := nodesAll settled
  refine
    { kept :=
        { stamped := rfl
          recorded := fun _ => rfl
          shown := fun _ _ shown => shown
          argsPlain := fun _ => argsPlain
          initPlain := fun _ => initPlain }
      nodes := ⟨List.forall_mem_cons.mpr ⟨?_, nodes.calls⟩, ?_⟩
      voidFree := fun _ good plain =>
        good.1 (plain.imp argsPlain fun ⟨isApart, isNone, isPlain⟩ =>
          ⟨isApart, isNone, initPlain isPlain⟩) }
  · intro ty recorded
    obtain ⟨types, view, result, shows, isTy⟩ := meets ty recorded
    exact ⟨types, view, result, argsShow settled shows, isTy⟩
  · have wereGood := List.forall_mem_map.mp argsGood
    exact List.forall_mem_append.mpr
      ⟨List.forall_mem_map.mpr (valuesGood settled wereGood), nodes.values⟩

mutual

/-- With good copies put in, an expression is good and shows what it did. -/
theorem Expr.settle_yields
    (enters : EntersCopies vouched enter)
    (expr : Expr)
    (good : NodesGood vouched expr.calls expr.values) :
    Yields vouched (expr.settle enter) (expr.SettledAs vouched) := by
  cases expr with
  | int | bool | char | nil =>
      exact .pure (.of_shown rfl rfl rfl (fun _ => id) trivial trivial .nil)
  | read place =>
      exact (Place.settle_yields enters place good).bind fun _ settled =>
        .pure (.read settled.1 settled.2)
  | pair first second | binary _ first second =>
      obtain ⟨firstGood, good⟩ := good.of_addValue
      obtain ⟨secondGood, good⟩ := good.of_addValue
      obtain ⟨firstNodes, secondNodes⟩ := good.of_append
      refine (Expr.settle_yields enters first firstNodes).bind
        fun _ firstSettled => ?_
      refine (Expr.settle_yields enters second secondNodes).bind
        fun _ secondSettled =>
          .pure (.of_shown rfl rfl rfl (fun _ => id) trivial trivial ?_)
      have nodes := firstSettled.nodes.append secondSettled.nodes
      exact (nodes.addValue (secondSettled.valueGood secondGood)).addValue
        (firstSettled.valueGood firstGood)
  | range first last =>
      obtain ⟨firstNodes, lastNodes⟩ := good.of_append
      refine (Expr.settle_yields enters first firstNodes).bind
        fun _ firstSettled => ?_
      refine (Expr.settle_yields enters last lastNodes).bind
        fun _ lastSettled =>
          .pure (.of_shown rfl rfl rfl (fun _ => id) trivial trivial ?_)
      exact firstSettled.nodes.append lastSettled.nodes
  | unary _ operand =>
      exact (Expr.settle_yields enters operand good).bind fun _ settled =>
        .pure
          (.of_shown rfl rfl rfl (fun _ => id) trivial trivial settled.nodes)
  | call made =>
      exact (Call.settle_yields enters made good).bind fun _ settled =>
        .pure settled
termination_by structural expr

/-- With good copies put in, a place is good and its slot is kept. -/
theorem Place.settle_yields
    (enters : EntersCopies vouched enter)
    (place : Place)
    (good : NodesGood vouched place.calls place.values) :
    Yields vouched (place.settle enter) fun place' =>
      place'.mark = place.mark ∧
        NodesGood anyCall place'.calls place'.values := by
  cases place with
  | mk name fields mark =>
      exact (Field.settleAll_yields enters fields good).bind fun _ nodes =>
        .pure ⟨rfl, nodes⟩
termination_by structural place

/-- With good copies put in, a field is good. -/
theorem Field.settle_yields
    (enters : EntersCopies vouched enter)
    (field : Field)
    (good : NodesGood vouched field.calls field.values) :
    Yields vouched (field.settle enter) fun field' =>
      NodesGood anyCall field'.calls field'.values := by
  cases field with
  | hd | tl | fst | snd => exact .pure .nil
  | index position =>
      exact (Expr.settle_yields enters position good).bind fun _ settled =>
        .pure settled.nodes
termination_by structural field

theorem Field.settleAll_yields
    (enters : EntersCopies vouched enter)
    (fields : List Field)
    (good :
      NodesGood vouched (Field.callsAll fields) (Field.valuesAll fields)) :
    Yields vouched (Field.settleAll enter fields) fun fields' =>
      NodesGood anyCall (Field.callsAll fields') (Field.valuesAll fields') := by
  cases fields with
  | nil => exact .pure .nil
  | cons field rest =>
      obtain ⟨fieldGood, restGood⟩ := good.of_append
      exact (Field.settle_yields enters field fieldGood).bind
        fun _ fieldNodes =>
          (Field.settleAll_yields enters rest restGood).bind fun _ restNodes =>
            .pure (fieldNodes.append restNodes)
termination_by structural fields

/--
A call is replaced by its copy, or keeps its slot with copies in its arguments.
-/
theorem Call.settle_yields
    (enters : EntersCopies vouched enter)
    (call : Call)
    (good : NodesGood vouched call.calls call.values) :
    Yields vouched (call.settle enter) fun call' =>
      Expr.SettledAs vouched (.call call) (.call call') := by
  cases call with
  | mk callee args mark waiting =>
      refine (takeCopy_yields vouched waiting).bind fun outcome taken => ?_
      cases outcome with
      | some copy =>
          have ⟨_, _, _, copyGood, _⟩ := taken
          exact (enters copy copyGood).mono fun _ settled =>
            settled.settledAs taken
      | none =>
          have argsGood :
              NodesGood vouched (Expr.callsAll args) (Expr.valuesAll args) :=
            ⟨(List.forall_mem_cons.mp good.calls).2,
              (List.forall_mem_append.mp good.values).2⟩
          exact (Expr.settleAll_yields enters args argsGood).bind
            fun _ settled => .pure (.call settled good)
termination_by structural call

/-- With good copies put in, each of some expressions is settled. -/
theorem Expr.settleAll_yields
    (enters : EntersCopies vouched enter)
    (exprs : List Expr)
    (good : NodesGood vouched (Expr.callsAll exprs) (Expr.valuesAll exprs)) :
    Yields vouched (Expr.settleAll enter exprs)
      (List.Forall₂ (Expr.SettledAs vouched) exprs) := by
  cases exprs with
  | nil => exact .pure .nil
  | cons expr rest =>
      obtain ⟨exprGood, restGood⟩ := good.of_append
      exact (Expr.settle_yields enters expr exprGood).bind fun _ exprSettled =>
        (Expr.settleAll_yields enters rest restGood).bind fun _ restSettled =>
          .pure (.cons exprSettled restSettled)
termination_by structural exprs

end

/-- Copies are settled however deep they stand inside one another. -/
theorem Call.settleArgs_enters (depth : Nat) :
    EntersCopies vouched (Call.settleArgs depth) := by
  induction depth with
  | zero =>
      intro copy good
      exact .pure ⟨rfl, rfl, id, good.mono fun _ _ => trivial⟩
  | succ depth inductionHypothesis =>
      rintro ⟨callee, args, mark, waiting⟩ good
      have argsGood :
          NodesGood vouched (Expr.callsAll args) (Expr.valuesAll args) :=
        ⟨(List.forall_mem_cons.mp good.calls).2,
          (List.forall_mem_append.mp good.values).2⟩
      refine (Expr.settleAll_yields inductionHypothesis args argsGood).bind
        fun args' settled => .pure ?_
      exact ⟨rfl, rfl, Expr.SettledAs.plainAll settled,
        (Expr.SettledAs.call settled good).nodes⟩

mutual

/-- With good copies put in, a statement is good. -/
theorem Stmt.settle_yields
    (enters : EntersCopies vouched enter)
    (stmt : Stmt)
    (good : NodesGood vouched stmt.calls stmt.values) :
    Yields vouched (stmt.settle enter) fun stmt' =>
      NodesGood anyCall stmt'.calls stmt'.values := by
  match stmt with
  | .ifElse condition thenBody elseBody _ =>
      obtain ⟨good, elseGood⟩ := good.of_append
      obtain ⟨conditionGood, thenGood⟩ := good.of_append
      exact (Expr.settle_yields enters condition conditionGood).bind
        fun _ conditionSettled =>
          (Stmt.settleAll_yields enters thenBody thenGood).bind
            fun _ thenNodes =>
              (Stmt.settleAll_yields enters elseBody elseGood).bind
                fun _ elseNodes =>
                  .pure ((conditionSettled.nodes.append thenNodes).append
                    elseNodes)
  | .whileDo head body _ | .forIn _ head body _ =>
      obtain ⟨headGood, bodyGood⟩ := good.of_append
      exact (Expr.settle_yields enters head headGood).bind fun _ headSettled =>
        (Stmt.settleAll_yields enters body bodyGood).bind fun _ bodyNodes =>
          .pure (headSettled.nodes.append bodyNodes)
  | .assign target value _ =>
      obtain ⟨targetGood, good⟩ := good.of_addValue
      obtain ⟨valueGood, good⟩ := good.of_addValue
      obtain ⟨targetNodes, valueNodes⟩ := good.of_append
      refine (Place.settle_yields enters target targetNodes).bind
        fun target' targetSettled => ?_
      refine (Expr.settle_yields enters value valueNodes).bind
        fun _ valueSettled => .pure ?_
      have readSettled :
          Expr.SettledAs vouched (.read target) (.read target') :=
        .read targetSettled.1 targetSettled.2
      have nodes := targetSettled.2.append valueSettled.nodes
      exact (nodes.addValue (valueSettled.valueGood valueGood)).addValue
        (readSettled.valueGood targetGood)
  | .call made =>
      exact (Call.settle_yields enters made good).bind fun _ settled =>
        .pure settled.nodes
  | .ret none _ => exact .pure .nil
  | .ret (some value) _ =>
      obtain ⟨valueGood, valueNodes⟩ := good.of_addValue
      exact (Expr.settle_yields enters value valueNodes).bind fun _ settled =>
        .pure (settled.nodes.addValue (settled.valueGood valueGood))
termination_by structural stmt

theorem Stmt.settleAll_yields
    (enters : EntersCopies vouched enter)
    (stmts : List Stmt)
    (good : NodesGood vouched (Stmt.callsAll stmts) (Stmt.valuesAll stmts)) :
    Yields vouched (Stmt.settleAll enter stmts) fun stmts' =>
      NodesGood anyCall (Stmt.callsAll stmts') (Stmt.valuesAll stmts') := by
  cases stmts with
  | nil => exact .pure .nil
  | cons stmt rest =>
      obtain ⟨stmtGood, restGood⟩ := good.of_append
      exact (Stmt.settle_yields enters stmt stmtGood).bind fun _ stmtNodes =>
        (Stmt.settleAll_yields enters rest restGood).bind fun _ restNodes =>
          .pure (stmtNodes.append restNodes)
termination_by structural stmts

end

/-- The nodes of items are good if those of each one are. -/
theorem NodesGood.flatMap
    {α : Type}
    {items : List α}
    {calls : α → List Call}
    {values : α → List Value} :
    NodesGood vouched (items.flatMap calls) (items.flatMap values) ↔
      ∀ item ∈ items, NodesGood vouched (calls item) (values item) := by
  constructor
  · intro good item member
    exact
      ⟨fun call isCall =>
        good.calls call (List.mem_flatMap.mpr ⟨item, member, isCall⟩),
        fun value isValue =>
          good.values value (List.mem_flatMap.mpr ⟨item, member, isValue⟩)⟩
  · refine fun good => ⟨fun call isCall => ?_, fun value isValue => ?_⟩
    · obtain ⟨item, member, isCall⟩ := List.mem_flatMap.mp isCall
      exact (good item member).calls call isCall
    · obtain ⟨item, member, isValue⟩ := List.mem_flatMap.mp isValue
      exact (good item member).values value isValue

/-- With good copies put in, a declaration is good; its slot is kept. -/
theorem VarDecl.settle_yields
    (enters : EntersCopies vouched enter)
    (decl : VarDecl)
    (good : NodesGood vouched decl.calls decl.values)
    (voidFree : decl.SlotVoidFree) :
    Yields vouched (decl.settle enter) fun decl' =>
      NodesGood anyCall decl'.calls decl'.values ∧ decl'.SlotVoidFree := by
  obtain ⟨valueGood, valueNodes⟩ := good.of_addValue
  exact (Expr.settle_yields enters decl.value valueNodes).bind
    fun _ settled =>
      .pure ⟨settled.nodes.addValue (settled.valueGood valueGood), voidFree⟩

/-- With good copies put in, a declaration of either kind is good. -/
theorem Decl.settle_yields
    (enters : EntersCopies vouched enter)
    (decl : Decl)
    (good : NodesGood vouched decl.calls decl.values)
    (voidFree : ∀ item ∈ decl.varDecls, item.SlotVoidFree) :
    Yields vouched (decl.settle enter) fun decl' =>
      NodesGood anyCall decl'.calls decl'.values ∧
        ∀ item ∈ decl'.varDecls, item.SlotVoidFree := by
  cases decl with
  | var decl =>
      have itemFree := List.forall_mem_singleton.mp voidFree
      exact (VarDecl.settle_yields enters decl good itemFree).bind
        fun _ settled =>
          .pure ⟨settled.1, List.forall_mem_singleton.mpr settled.2⟩
  | fn decl =>
      obtain ⟨localsGood, bodyGood⟩ := good.of_append
      have eachGood := NodesGood.flatMap.mp localsGood
      have localsYield :=
        Yields.mapM fun item member =>
          VarDecl.settle_yields enters item (eachGood item member)
            (voidFree item member)
      have settledYield : Yields vouched (decl.settle enter) fun decl' =>
          NodesGood anyCall decl'.calls decl'.values ∧
            ∀ item ∈ decl'.locals, item.SlotVoidFree :=
        localsYield.bind fun _ locals =>
          (Stmt.settleAll_yields enters decl.body bodyGood).bind
            fun _ bodyNodes =>
              .pure ⟨(NodesGood.flatMap.mpr fun item member =>
                (locals item member).1).append bodyNodes,
                fun item member => (locals item member).2⟩
      exact settledYield.bind fun _ settled => .pure settled

/-- After the copies are put in, every call and every value is good. -/
theorem Program.settle_yields
    {program : Program}
    (good : NodesGood vouched program.calls program.values)
    (voidFree : ∀ item ∈ program.varDecls, item.SlotVoidFree) :
    Yields vouched program.settle fun program' =>
      NodesGood anyCall program'.calls program'.values ∧
        ∀ item ∈ program'.varDecls, item.SlotVoidFree := by
  intro copies copiesGood
  have enters : EntersCopies vouched (Call.settleArgs copies.size) :=
    Call.settleArgs_enters _
  have eachGood := NodesGood.flatMap.mp good
  have declsYield :=
    Yields.mapM fun decl member =>
      Decl.settle_yields enters decl (eachGood decl member)
        fun item isItem =>
          voidFree item (List.mem_flatMap.mpr ⟨decl, member, isItem⟩)
  obtain ⟨decls, left⟩ := declsYield copies copiesGood
  refine ⟨⟨NodesGood.flatMap.mpr fun decl member => (decls decl member).1, ?_⟩,
    left⟩
  intro item isItem
  obtain ⟨decl, member, inDecl⟩ := List.mem_flatMap.mp isItem
  exact (decls decl member).2 item inDecl

end Expressions

/-- The tree with all copies put in, before its types are narrowed again. -/
def Inferred.tree (inferred : Inferred) : Program :=
  (inferred.program.settle.run inferred.state.resolved).1

/-- In the tree of an accepted program, every call and every value is good. -/
theorem Program.infer_tree_good
    {program : Program}
    (blank : program.Blank)
    (accepted : program.Accepted) :
    NodesGood anyCall program.infer.tree.calls program.infer.tree.values ∧
      ∀ decl ∈ program.infer.tree.varDecls, decl.SlotVoidFree := by
  obtain ⟨⟨_, nodes, copies⟩, voidFree⟩ := program.infer_records blank accepted
  exact (Program.settle_yields nodes voidFree _ copies).1

end SplTyping
