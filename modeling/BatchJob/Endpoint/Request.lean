import BatchJob.Endpoint.Desk

/-! What can be asked of a desk, one request at a time. -/
namespace BatchJob.Endpoint

inductive Request where
  | get
  | getMany (n : Nat)
  | fail (e : Endpoint) (leased : Option Duration)
  | succeed (e : Endpoint)
  | hold (e : Endpoint)
  | release (e : Endpoint)
  | remove (e : Endpoint)
  | query (e : Endpoint)
  | close
  | advance (d : Duration)
  deriving DecidableEq, Repr

inductive Response where
  | done
  | granted (e : Endpoint)
  | refused (r : Refusal)
  | labels (texts : List String)
  | removed (found : Bool)
  | health (errors leases : Option UInt32) (quarantined : Bool)
  deriving DecidableEq, Repr

namespace Desk

def getTexts : Nat → Desk → List String × Desk
  | 0, d => ([], d)
  | n + 1, d =>
    let (answer, d) := d.get
    let text := match answer with
      | .ok e => e.label
      | .error r => r.message
    let (texts, d) := getTexts n d
    (text :: texts, d)

def distinct (texts : List String) : List String :=
  (texts.mergeSort fun a b => decide (a ≤ b)).eraseDups

def handle (d : Desk) : Request → Response × Desk
  | .get =>
    match d.get with
    | (.ok e, d) => (.granted e, d)
    | (.error r, d) => (.refused r, d)
  | .getMany n =>
    let (texts, d) := d.getTexts n
    (.labels (distinct texts), d)
  | .fail e leased => (.done, d.fail e leased)
  | .succeed e => (.done, d.onPool (·.succeed e))
  | .hold e => (.done, d.onPool (·.hold e))
  | .release e => (.done, d.onPool (·.release e))
  | .remove e =>
    let (found, pool) := d.pool.remove e
    (.removed found, { d with pool := pool })
  | .query e =>
    (.health (d.pool.errors? e) (d.pool.leases? e) (d.pool.quarantined e d.now), d)
  | .close => (.done, d.onPool .close)
  | .advance t => (.done, { d with clock := d.clock.advance t })

def handleAll (d : Desk) (requests : List Request) : Desk :=
  requests.foldl (fun d r => (d.handle r).2) d

end Desk
end BatchJob.Endpoint
