import MdbxGo.Libmdbx.Merge
import MdbxGo.Libmdbx.Repnl

/-! The pages of the database file during write transactions: where a page is, and what the
allocator, `page_retire_ex`, the refunding of pages and a commit do with it. Allocations of memory
succeed, transactions are not nested, and no page is spilled. -/

namespace MdbxGo

/-! ### State -/

/-- The garbage collection table and the fields of the write transaction that say what becomes of
pages. -/
structure Pages where
  /-- `geo.first_unallocated` and the last id as of the last commit. -/
  base : Nat
  last : Nat
  upper : Nat
  /-- The records of the garbage collection table. -/
  rows : List (Nat × Pnl)
  /-- The pages that the trees of a committed snapshot consist of. -/
  views : Nat → List Nat
  /-- `geo.first_unallocated`. -/
  first : Nat
  repnl : Pnl
  /-- `gc.reclaimed` and `gc.ready4reuse`. -/
  reclaimed : List Nat
  retired : Pnl
  loose : List Nat
  /-- `loose_refund_wl`. -/
  refundWl : Nat
  /-- The pages that have been handed out to the transaction and that its trees consist of. -/
  lent : List Nat

/-- The transaction has just begun. -/
def Pages.fresh (p : Pages) : Pages :=
  { p with
    first := p.base, repnl := Pnl.ofList [], reclaimed := [], retired := Pnl.ofList [], loose := []
    refundWl := 0, lent := [] }

/-- Where a page is. -/
inductive Place
  | tree
  | lent
  | retired
  | repnl
  | loose
  | row (id : Nat)
  | unallocated
deriving DecidableEq, Repr

/-- The page `x` is in a place. -/
def Pages.At (p : Pages) (x : Nat) : Place → Prop
  | .tree => x ∈ p.views p.last ∧ ¬ p.retired.Has x
  | .lent => x ∈ p.lent
  | .retired => p.retired.Has x
  | .repnl => p.repnl.Has x
  | .loose => x ∈ p.loose
  | .row id => id ∉ p.reclaimed ∧ ∃ pnl, (id, pnl) ∈ p.rows ∧ pnl.Has x
  | .unallocated => p.first ≤ x

/-- A page of the snapshot `s` may be in the place. -/
def Place.Shows (s : Nat) : Place → Prop
  | .tree | .retired => True
  | .row id => s < id
  | _ => False

/-! ### Operations -/

/-- `n` pages from `pgno` on. -/
def inSpan (pgno n x : Nat) : Bool := decide (pgno ≤ x) && decide (x < pgno + n)

def Pages.lend (p : Pages) (pgno n : Nat) : Pages :=
  { p with lent := p.lent ++ (List.range n).map (pgno + ·) }

def Pages.unlend (p : Pages) (pgno n : Nat) : Pages :=
  { p with lent := p.lent.filter fun x => !inSpan pgno n x }

/-- `while (--first_unallocated, ++i <= len && pnl[i] == first_unallocated - 1)`. -/
def refundLoop (pnl : Pnl) : Nat → Nat → Nat → Nat × Nat
  | 0, i, first => (i, first)
  | fuel + 1, i, first =>
    let first := first - 1
    let i := i + 1
    if i ≤ pnl.size && pnl i == first - 1 then refundLoop pnl fuel i first else (i, first)

/-- `refund_reclaimed`. -/
def Pages.refundReclaimed (p : Pages) : Pages :=
  let s := refundLoop p.repnl p.repnl.size 1 p.first
  let len := p.repnl.size - (s.1 - 1)
  { p with
    first := s.2
    repnl := Pnl.pullDown (s.1 - 1) len 1 (p.repnl.setsize len) }

/-- Where the loose pages begin that end where the unallocated pages begin. -/
def looseEdge (loose : List Nat) : Nat → Nat → Nat
  | 0, first => first
  | fuel + 1, first =>
    if loose.contains (first - 1) then looseEdge loose fuel (first - 1) else first

/-- `refund_loose`: both of its ways, by the list of dirty pages and by the loose pages themselves,
refund the loose pages at the end. -/
def Pages.refundLoose (p : Pages) : Pages :=
  let first := looseEdge p.loose p.loose.length p.first
  { p with
    first := first
    loose := p.loose.filter (fun x => decide (x < first))
    refundWl := first }

/-- `MDBX_PNL_MOST(repnl) == first_unallocated - 1`, for a list that is not empty. -/
def Pages.atEdge (p : Pages) : Bool := p.repnl.size != 0 && p.repnl 1 == p.first - 1

/-- `loose_pages && loose_refund_wl > first_unallocated`. -/
def Pages.mayRefundLoose (p : Pages) : Bool := !p.loose.isEmpty && decide (p.refundWl > p.first)

/-- The loop of `txn_refund`. -/
def Pages.refundRounds : Nat → Pages → Pages
  | 0, p => p
  | fuel + 1, p =>
    if !p.atEdge then p
    else
      let q := p.refundReclaimed
      if !q.mayRefundLoose then q
      else
        let r := q.refundLoose
        if r.first = q.first then r else Pages.refundRounds fuel r

/-- `txn_refund`. -/
def Pages.txnRefund (p : Pages) : Pages :=
  let q := if p.mayRefundLoose then p.refundLoose else p
  Pages.refundRounds q.first q

/-- The refund of suitable pages after the list of reclaimed pages has grown. -/
def Pages.refundSuitable (p : Pages) : Pages := if p.atEdge then p.txnRefund else p

/-- The end of `page_retire_ex` for a page that no transaction has changed. -/
def Pages.retire (p : Pages) (pgno n : Nat) : Pages :=
  { p with retired := pnlAppendSpan p.retired pgno n }

/-- The end of `page_retire_ex` for a page that the transaction has changed. -/
def Pages.reuse (p : Pages) (pgno n : Nat) (suitable4loose : Bool) : Pages :=
  let q := p.unlend pgno n
  if pgno + n = p.first then { q with first := pgno }.txnRefund
  else if n = 1 && suitable4loose then
    { q with loose := pgno :: q.loose, refundWl := max (pgno + 2) q.refundWl }
  else { q with repnl := pnlInsertSpan q.repnl pgno n }.refundSuitable

/-- `gc_merge_loose`: the pages go to the list of reclaimed pages, or to the one of retired
pages. -/
def Pages.gcMergeLoose (p : Pages) (short : Nat) (toRepnl : Bool) : Pages :=
  if toRepnl then
    { p with repnl := pnlMerge short p.repnl (pnlSort p.loose), loose := [], refundWl := 0 }
  else { p with retired := p.loose.foldl pnlAppend p.retired, loose := [], refundWl := 0 }

/-- The records that `gc_update` writes hold the retired and the left reclaimed pages, those with
retired pages under ids that are new. -/
def Pages.Writes (p : Pages) (txnid : Nat) (rows : List (Nat × Pnl)) : Prop :=
  (rows.flatMap fun r => r.2.pages).Perm (p.retired.pages ++ p.repnl.pages) ∧
    (rows.map Prod.fst).Nodup ∧
    ∀ r ∈ rows, pnlCheck r.2 p.first = true ∧ r.2.size ≤ maxPageno ∧ r.1 ≤ txnid ∧
      (∀ old ∈ p.rows, old.1 ∉ p.reclaimed → old.1 ≠ r.1) ∧
      (p.last < r.1 ∨ ∀ x ∈ r.2.pages, x ∉ p.retired.pages)

instance (p : Pages) (txnid : Nat) (rows : List (Nat × Pnl)) : Decidable (p.Writes txnid rows) := by
  unfold Pages.Writes
  infer_instance

/-- A commit, once `gc_update` has found `rows`. -/
def Pages.commit (p : Pages) (txnid : Nat) (rows : List (Nat × Pnl)) : Pages :=
  Pages.fresh
    { p with
      base := p.first
      last := txnid
      rows := p.rows.filter (fun r => !p.reclaimed.contains r.1) ++ rows
      views := Function.update p.views txnid
        ((p.views p.last).filter (fun x => !p.retired.pages.contains x) ++ p.lent) }

/-- What happens to pages. The scans of a list are given with their variant and with what lies
around the list, and a merge with the length up to which it goes page by page. -/
inductive PageEvent
  | loose
  | single
  | sequence (impl : ScanImpl) (around : Words) (num : Nat)
  | best (num edge : Nat)
  | tail (num : Nat)
  | reclaim (id short : Nat)
  | retire (pgno n : Nat)
  | reuse (pgno n : Nat) (suitable4loose : Bool)
  | refund
  | mergeLoose (short : Nat) (toRepnl : Bool)
  | commit (txnid : Nat) (rows : List (Nat × Pnl))

/-- The page that was taken, unless it is 0, is lent. -/
def Pages.taken (p : Pages) (r : Pnl × Nat) (n : Nat) : Option Pages :=
  if r.2 ≠ 0 then some ({ p with repnl := r.1 }.lend r.2 n) else none

/-- What an event does while the records up to `detent` may be reclaimed. -/
def Pages.step (p : Pages) (detent : Nat) : PageEvent → Option Pages
  | .loose =>
    p.loose.head?.map fun x => { p with loose := p.loose.tail }.lend x 1
  | .single => p.taken (gcRepnlGetSingle p.repnl) 1
  | .sequence impl around num =>
    if 1 < num ∧ num ≤ p.repnl.size then p.taken (gcRepnlGetSequence impl around p.repnl num) num
    else none
  | .best num edge =>
    -- defrag_repnl_get
    if 0 < num ∧ num ≤ p.repnl.size ∧ p.repnl p.repnl.size + num ≤ edge ∧ edge ≤ maxPageno + 1 then
      p.taken (pnlGetBestSequence p.repnl num edge) num
    else none
  | .tail num =>
    if p.first + num ≤ p.upper then some ({ p with first := p.first + num }.lend p.first num)
    else none
  | .reclaim id short =>
    if id ≤ detent ∧ id ∉ p.reclaimed then
      (p.rows.find? fun r => r.1 == id).map fun r =>
        { p with
          repnl := pnlMerge short p.repnl r.2, reclaimed := id :: p.reclaimed }.refundSuitable
    else none
  | .retire pgno n =>
    if 0 < n ∧ ∀ k < n, pgno + k ∈ p.views p.last ∧ pgno + k ∉ p.retired.pages then
      some (p.retire pgno n)
    else none
  | .reuse pgno n suitable4loose =>
    if 0 < n ∧ ∀ k < n, pgno + k ∈ p.lent then some (p.reuse pgno n suitable4loose) else none
  | .refund => some p.txnRefund
  | .mergeLoose short toRepnl => some (p.gcMergeLoose short toRepnl)
  | .commit txnid rows =>
    if p.last < txnid ∧ p.loose = [] ∧ p.Writes txnid rows then some (p.commit txnid rows) else none

end MdbxGo
