import BatchJob.Rehearsal.Site

/-! The source, the hooks and the executor of a scripted job. -/
namespace BatchJob.Rehearsal.Play
open Job

def setSource (p : Play) (s : SourceScript) : Play := p.onSite fun t => { t with source := s }

def openSource (p : Play) : Except String Unit × Play :=
  match p.rest.source.failOpen with
  | some problem => (.error problem, p)
  | none =>
    let (result, origin) := p.rest.source.origin.start p.rest.files
    (result, p.setSource { p.rest.source with origin := origin })

def total (p : Play) : Nat := p.rest.source.total.getD p.rest.source.origin.total

def next (p : Play) : Except String (Option String) × Play :=
  let pull := p.rest.source.pulls
  let p := p.setSource { p.rest.source with pulls := pull + 1 }
  let p := p.doAll (p.rest.source.schedule.at pull)
  if p.rest.source.failAt = some pull then (.error ("read failed at " ++ Text.decimal pull), p)
  else
    let (result, origin) := p.rest.source.origin.next p.rest.files
    (result, p.setSource { p.rest.source with origin := origin })

def closeSource (p : Play) : Play :=
  (p.setSource { p.rest.source with origin := p.rest.source.origin.close }).note .sourceClosed

def runHook (h : HookScript) (o : Occasion) (p : Play) : Except String Unit × Play :=
  let p := (p.note (.hook o)).doAll h.actions
  match h.problem with
  | some problem => (.error problem, p)
  | none => (.ok (), p)

def verdict (s : ExecutorScript) (unit : WorkUnit) (e : Endpoint) : Work.Outcome :=
  if s.down.contains e.address then .failure .endpoint .zero "connection refused"
  else if s.reject.any fun fragment => Text.occursIn fragment unit.identifier then
    .failure .unit .zero ("rejected " ++ unit.identifier)
  else .success .zero

def execute (unit : WorkUnit) (e : Endpoint) (p : Play) : Work.Outcome × Play :=
  let call := p.rest.calls.length
  let script := p.rest.executor
  let p := p.onSite fun s => { s with calls := s.calls ++ [(unit, e)] }
  let p := (p.advance script.time).doAll (script.schedule.at call)
  match script.lines[call]? with
  | some (time, outcome) => (outcome, p.advance time)
  | none => (verdict script unit e, p)

def attempts : Work.Attempts Play :=
  { Work.Attempts.atDesk (·.rest.desk) setDesk execute with now := now, sleep := sleep }

end BatchJob.Rehearsal.Play
