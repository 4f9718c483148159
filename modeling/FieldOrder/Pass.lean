/-
# Passes

A pass checks one module at a time and has a name, by which it can be chosen. A
run goes through all modules with one cache of helpers and gives the diagnostics
in order.

Key definitions: `Pass`, `passes`, `checkFilter`, `runModule`, `run`.
-/
import FieldOrder.Check

namespace FieldOrder

/-- A check of single modules. -/
structure Pass where
  name : String
  description : String
  check : Setting → ModuleFacts → HelperCache → Report

/-- The check of the order of schema fields. -/
def fieldOrderPass : Pass where
  name := Finding.passName
  description := "Checks that schema fields follow the canonical order " ++
    "(identifier, location, required, optional, computed, tags)"
  check := checkModule

/-- All passes. -/
def passes : List Pass := [fieldOrderPass]

def passNames : List String := passes.map (·.name)

/-- Refuse a choice of passes in which a name is not that of a pass. -/
def checkFilter (filter : List String) : Except Fault Unit :=
  match filter.find? fun name => !passNames.contains name with
  | some name => .error (.unknownPass name passNames)
  | none => .ok ()

/-- Whether a pass is chosen; without a choice every one is. -/
def isChosen (filter : Option (List String)) (p : Pass) : Bool :=
  match filter with
  | none => true
  | some names => names.contains p.name

/-- Run passes on a module, one after the other. -/
def runPasses (s : Setting) (facts : ModuleFacts) : List Pass → HelperCache → Report
  | [], cache => { cache }
  | p :: rest, cache =>
    let report := p.check s facts cache
    report.andThen (runPasses s facts rest report.cache)

/-- Run the chosen passes on a module. -/
def runModule (s : Setting) (filter : Option (List String)) (facts : ModuleFacts)
    (cache : HelperCache) : Report := runPasses s facts (passes.filter (isChosen filter)) cache

/-- Run the chosen passes on modules, one after the other. -/
def runModules (s : Setting) (filter : Option (List String)) :
    List ModuleFacts → HelperCache → Report
  | [], cache => { cache }
  | facts :: rest, cache =>
    let report := runModule s filter facts cache
    report.andThen (runModules s filter rest report.cache)

/-- Run the chosen passes on modules and put the diagnostics in order. -/
def run (s : Setting) (filter : Option (List String)) (modules : List ModuleFacts)
    (cache : HelperCache) : Report :=
  let report := runModules s filter modules cache
  { report with diagnostics := Diagnostic.sort report.diagnostics }

end FieldOrder
