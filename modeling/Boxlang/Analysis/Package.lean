import Boxlang.Analysis.Body

/-!
# Analysing packages

Bodies are analysed one by one.  They share the package, which does not change,
and the list of reports.
-/

namespace Boxlang

/-- A body and the function it belongs to. -/
structure Definition where
  function : FunctionId
  body : Body
  deriving Inhabited

namespace Package

def analyseDefinition (p : Package) (warnDeprecated : Bool) (reports : List Report)
    (definition : Definition) : Definition × List Report :=
  let f := p.signature definition.function
  let s :=
    (Analysis.analyseBody.runIn { package := p, function := f, warnDeprecated }
      (.start f definition.body reports)).2
  ({ definition with body := s.body }, s.reports)

/-- Analyses bodies in order, and returns them with all reports, in the order they were made. -/
def analyse (p : Package) (warnDeprecated : Bool) :
    List Definition → List Report → List Definition × List Report
  | [], reports => ([], reports)
  | definition :: rest, reports =>
    let (analysed, reports) := p.analyseDefinition warnDeprecated reports definition
    let (others, reports) := p.analyse warnDeprecated rest reports
    (analysed :: others, reports)

end Package

end Boxlang
