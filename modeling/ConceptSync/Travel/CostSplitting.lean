import ConceptSync.Machine
import ConceptSync.Number.Decimal

set_option autoImplicit false
set_option relaxedAutoImplicit false

/-!
Expenses and what users contribute to them. A contribution is refused when the total would exceed
the cost.
-/

namespace ConceptSync

namespace Travel

structure Expense where
  item : String
  cost : Double
  contributions : Table String Double
deriving Repr

abbrev CostSplitting := Table String Expense

namespace Expense

/-- The sum of the contributions in order of the users, from a negative zero on. -/
def covered (e : Expense) : Double :=
  e.contributions.values.foldl Double.add .negativeZero

def document (id : String) (e : Expense) : Value :=
  .object <| Table.ofList
    [("_id", .string id), ("item", .string e.item), ("cost", .ofDouble e.cost),
      ("contributions", .object (e.contributions.map fun c => (c.1, .ofDouble c.2)))]

def contribute (e : Expense) (user : String) (amount : Double) : Expense :=
  let before := (e.contributions.get? user).getD .zero
  { e with contributions := e.contributions.insert user (before.add amount) }

end Expense

namespace CostSplitting

def notFound (id : String) : Payload := .error ("Expense with ID '" ++ id ++ "' not found.")

def positive? (input : Payload) (field : String) : Option Double :=
  (input.number? field).filter fun x => Double.zero.lt x

def create (id : String) (input : Payload) (expenses : CostSplitting) :
    Payload × CostSplitting :=
  match input.text? "item" with
  | none => (.error "item is required.", expenses)
  | some item =>
    match positive? input "cost" with
    | none => (.error "Expense cost must be a positive number.", expenses)
    | some cost => (.single "expenseId" (.string id), expenses.insert id ⟨item, cost, []⟩)

def remove (_ : String) (input : Payload) (expenses : CostSplitting) : Payload × CostSplitting :=
  match input.text? "expenseId" with
  | none => (.error "expenseId is required.", expenses)
  | some id =>
    match expenses.get? id with
    | some _ => ([], expenses.erase id)
    | none => (notFound id, expenses)

def exceeds (amount : Double) (e : Expense) : String :=
  "Contribution of " ++ Decimal.sentence.write amount ++ " exceeds the remaining " ++
    Decimal.sentence.write (e.cost.sub e.covered) ++ " of this expense."

def addContribution (_ : String) (input : Payload) (expenses : CostSplitting) :
    Payload × CostSplitting :=
  match input.text? "userId", input.text? "expenseId" with
  | some user, some id =>
    match positive? input "amount" with
    | none => (.error "Contribution amount must be a positive number.", expenses)
    | some amount =>
      match expenses.get? id with
      | none => (notFound id, expenses)
      | some e =>
        if e.cost.lt (e.covered.add amount) then (.error (exceeds amount e), expenses)
        else ([], expenses.insert id (e.contribute user amount))
  | _, _ => (.error "userId and expenseId are required.", expenses)

def getExpensesByItem (input : Payload) (expenses : CostSplitting) : List Payload :=
  let item := (input.text? "item").getD ""
  let found := expenses.filter fun e => e.2.item == item
  [.single "expenses" (.array (found.map fun e => e.2.document e.1))]

def getTotalContributions (input : Payload) (expenses : CostSplitting) : List Payload :=
  ((input.text? "expenseId").bind expenses.get?).toList.map fun e =>
    .single "total" (.ofFinite e.covered)

def machine : Machine CostSplitting where
  name := "CostSplitting"
  operations :=
    [((Operation.action "create").takes ["item", "cost"]).gives ["expenseId"],
      (Operation.action "remove").takes ["expenseId"],
      (Operation.action "addContribution").takes ["userId", "expenseId", "amount"],
      ((Operation.query "_getExpensesByItem").takes ["item"]).gives ["expenses"],
      ((Operation.query "_getTotalContributions").takes ["expenseId"]).gives ["total"]]
  action?
    | "create" => some create
    | "remove" => some remove
    | "addContribution" => some addContribution
    | _ => none
  query?
    | "_getExpensesByItem" => some getExpensesByItem
    | "_getTotalContributions" => some getTotalContributions
    | _ => none

end CostSplitting

end Travel

end ConceptSync
