import ActiveMQCpp.DecafStringTokenizer
import ActiveMQCpp.DecafURICompare
import ActiveMQCpp.LibComparison

/-! `FailoverTransport::processNewTransports`: the list of brokers that a broker sends, and the pool of updated URIs. -/

namespace ActiveMQCpp

open List

namespace Failover

open Decaf Words Comparison

variable {uris : List URI}
variable {s : UpdatedBrokers}

/-- `URIPool`. Its list is filled by `addURI` only, which leaves out what `operator==` finds in it. -/
structure BrokerPool where
  uriPool : List URI := []
  priorityURI : URI := {}
  distinct : Distinct URI.order uriPool := by exact List.Pairwise.nil

namespace BrokerPool

def contains (uriPool : List URI) (uri : URI) : Bool := uriPool.any fun location => URI.order location uri = 0

def addURI (pool : BrokerPool) (uri : URI) : BrokerPool where
  uriPool := if contains pool.uriPool uri then pool.uriPool else pool.uriPool ++ [uri]
  priorityURI := if pool.priorityURI.toString = [] ∧ uri.toString ≠ [] then uri else pool.priorityURI
  distinct := by
    split_ifs with hcontains
    · exact pool.distinct
    · refine List.pairwise_append.mpr ⟨pool.distinct, List.pairwise_singleton _ _, fun location hlocation u hu => ?_⟩
      cases List.mem_singleton.mp hu
      intro heq
      exact hcontains (List.any_eq_true.mpr ⟨location, hlocation, decide_eq_true heq⟩)

def clear (pool : BrokerPool) : BrokerPool := { pool with uriPool := [], distinct := List.Pairwise.nil }

/-- `equals`: as many URIs, and all of the other pool are in this one. -/
def equals (pool other : BrokerPool) : Bool :=
  pool.uriPool.length = other.uriPool.length && other.uriPool.all (contains pool.uriPool)

end BrokerPool

/-- The part of the failover transport that keeps the updated URIs; `reconnects` are the calls of `reconnect(rebalance)`. -/
structure UpdatedBrokers where
  updateURIsSupported : Bool := true
  updated : BrokerPool := {}
  reconnects : List Bool := []

/-- `std::set` and `LinkedList::equals` rely on `URI::compareTo`. Where it does not order the URIs at hand, which may be so
when some authorities are servers and others are not, nothing is said of what they do. -/
def updateURIs (rebalance : Bool) (updatedURIs : List URI) (s : UpdatedBrokers) : Option UpdatedBrokers :=
  if s.updateURIsSupported then
    if updatedURIs = [] then some { s with updated := s.updated.clear }
    else if Orders URI.order (s.updated.uriPool ++ updatedURIs) then
      let updated := (toSet URI.order updatedURIs).foldl BrokerPool.addURI s.updated.clear
      some { s with
        updated
        reconnects :=
          if !(s.updated.uriPool.isEmpty && updated.uriPool.isEmpty) && !s.updated.equals updated then
            s.reconnects ++ [rebalance]
          else s.reconnects }
    else none
  else some s

/-- `std::remove(s.begin(), s.end(), ' ')` moves the other characters to the front. The string keeps its length, and behind
them its old characters. -/
def removeBlanks (s : ByteString) : ByteString := s.filter (· ≠ 32) ++ s.drop (s.filter (· ≠ 32)).length

/-- The loop over the entries; those that are no URI are left out. -/
def parseTransports (tokenizer : Text.StringTokenizer) : List URI :=
  if tokenizer.hasMoreTokens then
    match _hnext : tokenizer.nextToken with
    | .ok str tokenizer' => (URI.ofString str).toOption.toList ++ parseTransports tokenizer'
    | .error _ _ => []
  else []
termination_by tokenizer.left tokenizer.pos
decreasing_by exact Text.StringTokenizer.nextToken_left _hnext

def processNewTransports (rebalance : Bool) (newTransports : ByteString) (s : UpdatedBrokers) : Option UpdatedBrokers :=
  if newTransports = [] then some s
  else if (removeBlanks newTransports).length > 0 ∧ s.updateURIsSupported then
    let list := parseTransports ⟨removeBlanks newTransports, ascii ",", some 0, false⟩
    if list = [] then some s else updateURIs rebalance list s
  else some s

/-! ### The entries of a list -/

def isComma (c : UInt8) : Bool := (ascii ",").contains c

/-- The valid URIs of a comma separated list. -/
def brokerURIs (list : ByteString) : List URI := (words isComma list).filterMap fun str => (URI.ofString str).toOption

theorem parseTransports_eq {tokenizer : Text.StringTokenizer} (h : tokenizer.returnDelims = false) :
    parseTransports tokenizer = tokenizer.tokens.filterMap fun str => (URI.ofString str).toOption := by
  induction hn : tokenizer.left tokenizer.pos using Nat.strong_induction_on generalizing tokenizer with
  | _ n ih =>
    rw [parseTransports]
    obtain ⟨hmore, hnil, -⟩ | ⟨str, tokenizer', hmore, hnext, hplain, hcons⟩ := Text.StringTokenizer.nextToken_cases h
    · rw [hmore, hnil]
      rfl
    · have hrest := ih _ (hn ▸ Text.StringTokenizer.nextToken_left hnext) hplain rfl
      rw [hmore, if_pos rfl, hcons]
      split
      · next str' t' ht' =>
          rw [hnext] at ht'
          cases ht'
          rw [hrest, filterMap_cons]
          cases (URI.ofString str).toOption <;> rfl
      · next ht' => rw [hnext] at ht'; cases ht'

/-! ### The pool -/

namespace BrokerPool

theorem contains_iff {uriPool : List URI} {uri : URI} :
    contains uriPool uri = true ↔ ∃ location ∈ uriPool, URI.order location uri = 0 := by
  rw [contains, any_eq_true]
  simp only [decide_eq_true_eq]

theorem foldl_addURI (uris : List URI) (pool : BrokerPool) (hdistinct : Distinct URI.order (pool.uriPool ++ uris)) :
    (uris.foldl addURI pool).uriPool = pool.uriPool ++ uris := by
  induction uris generalizing pool with
  | nil => exact (append_nil _).symm
  | cons uri uris ih =>
    have hnew : contains pool.uriPool uri = false := by
      by_contra hcontains
      obtain ⟨location, hlocation, heq⟩ := contains_iff.mp (Bool.of_not_eq_false hcontains)
      exact (pairwise_append.mp hdistinct).2.2 location hlocation uri mem_cons_self heq
    have hadd : (pool.addURI uri).uriPool = pool.uriPool ++ [uri] := by
      apply if_neg
      rw [hnew]
      exact Bool.false_ne_true
    have hrest : Distinct URI.order ((pool.addURI uri).uriPool ++ uris) := by
      rw [hadd, append_assoc]
      exact hdistinct
    rw [foldl_cons, ih _ hrest, hadd, append_assoc]
    rfl

/-- Where the comparison orders the URIs, `equals` compares sets. -/
theorem equals_iff {pool other : BrokerPool} (h : Orders URI.order (pool.uriPool ++ other.uriPool)) :
    pool.equals other = true ↔ SameSet URI.order pool.uriPool other.uriPool := by
  rw [sameSet_iff_covers h pool.distinct other.distinct, equals, Bool.and_eq_true, decide_eq_true_eq, all_eq_true]
  simp only [contains_iff]
  rfl

end BrokerPool

/-! ### The list of the broker -/

def SameBrokers (uris others : List URI) : Prop := uris = others ∨ SameSet URI.order uris others

def effective (s : UpdatedBrokers) (uris : List URI) : List URI := if uris = [] then s.updated.uriPool else uris

/-- The updated URIs become those of the list without its blanks, and a reconnect is triggered when they are others than
before. Nothing happens when updates are not supported. -/
def ListApplied (rebalance : Bool) (list : ByteString) (s : UpdatedBrokers) : Prop :=
  ∃ s', processNewTransports rebalance list s = some s' ∧
    (s.updateURIsSupported = false → s' = s) ∧
    (s.updateURIsSupported = true →
      SameBrokers s'.updated.uriPool (effective s (brokerURIs (list.filter (· ≠ 32)))) ∧
      (SameBrokers s.updated.uriPool s'.updated.uriPool → s'.reconnects = s.reconnects) ∧
      (¬ SameBrokers s.updated.uriPool s'.updated.uriPool → s'.reconnects = s.reconnects ++ [rebalance]))

/-- The comparison orders the URIs, and the bytes that are left behind the list change nothing about its set of URIs. -/
def StaleBytesHarmless (list : ByteString) (s : UpdatedBrokers) : Prop :=
  s.updateURIsSupported = true →
    (brokerURIs (removeBlanks list) ≠ [] → Orders URI.order (s.updated.uriPool ++ brokerURIs (removeBlanks list))) ∧
    SameBrokers (effective s (toSet URI.order (brokerURIs (removeBlanks list))))
      (effective s (brokerURIs (list.filter (· ≠ 32))))

theorem removeBlanks_eq_nil {list : ByteString} : removeBlanks list = [] ↔ list = [] := by
  constructor
  · intro h
    obtain ⟨hfilter, hdrop⟩ := append_eq_nil_iff.mp h
    rw [hfilter] at hdrop
    exact hdrop
  · intro h
    rw [h]
    rfl

/-- The call works on the entries of the string with the stale bytes. -/
theorem processNewTransports_eq (rebalance : Bool) (list : ByteString) (hsupported : s.updateURIsSupported = true) :
    processNewTransports rebalance list s =
      if brokerURIs (removeBlanks list) = [] then some s
      else updateURIs rebalance (brokerURIs (removeBlanks list)) s := by
  have hparse : parseTransports ⟨removeBlanks list, ascii ",", some 0, false⟩ = brokerURIs (removeBlanks list) :=
    parseTransports_eq rfl
  rw [processNewTransports, hparse]
  by_cases hlist : list = []
  · have hnone : brokerURIs (removeBlanks list) = [] := by
      rw [removeBlanks_eq_nil.mpr hlist]
      rfl
    rw [if_pos hlist, if_pos hnone]
  · have hlength : (removeBlanks list).length > 0 := length_pos_of_ne_nil fun h => hlist (removeBlanks_eq_nil.mp h)
    rw [if_neg hlist, if_pos ⟨hlength, hsupported⟩]

theorem toSet_ne_nil (horders : Orders URI.order uris) (hne : uris ≠ []) : toSet URI.order uris ≠ [] := by
  intro hnil
  obtain ⟨uri, huri⟩ := exists_mem_of_ne_nil uris hne
  obtain ⟨other, hother, -⟩ := (sameSet_toSet horders).2 uri huri
  rw [hnil] at hother
  cases hother

/-- What an update does: the pool has the URIs, and a reconnect is triggered when they are others than before. -/
theorem updateURIs_spec (rebalance : Bool) (hsupported : s.updateURIsSupported = true)
    (hne : uris ≠ []) (horders : Orders URI.order (s.updated.uriPool ++ uris)) :
    ∃ s', updateURIs rebalance uris s = some s' ∧ s'.updated.uriPool = toSet URI.order uris ∧
      (SameSet URI.order s.updated.uriPool s'.updated.uriPool → s'.reconnects = s.reconnects) ∧
      (¬ SameSet URI.order s.updated.uriPool s'.updated.uriPool → s'.reconnects = s.reconnects ++ [rebalance]) := by
  have huris : Orders URI.order uris := horders.mono (subset_append_right _ _)
  have hpool : ((toSet URI.order uris).foldl BrokerPool.addURI s.updated.clear).uriPool = toSet URI.order uris :=
    BrokerPool.foldl_addURI _ _ (sorted_toSet huris).distinct
  have hall : s.updated.uriPool ++ toSet URI.order uris ⊆ s.updated.uriPool ++ uris := by
    intro uri huri
    apply mem_append.mpr
    exact (mem_append.mp huri).imp_right (mem_of_mem_toSet huris)
  have hequals : s.updated.equals ((toSet URI.order uris).foldl BrokerPool.addURI s.updated.clear) = true ↔
      SameSet URI.order s.updated.uriPool (toSet URI.order uris) := by
    rw [BrokerPool.equals_iff (by rw [hpool]; exact horders.mono hall), hpool]
  have hfilled : (toSet URI.order uris).isEmpty = false := by
    rw [isEmpty_eq_false_iff]
    exact toSet_ne_nil huris hne
  rw [updateURIs, if_pos hsupported, if_neg hne, if_pos horders]
  refine ⟨_, rfl, hpool, fun hsame => ?_, fun hdiffers => ?_⟩
  · rw [hpool] at hsame
    apply if_neg
    rw [hequals.mpr hsame, Bool.not_true, Bool.and_false]
    exact Bool.false_ne_true
  · rw [hpool] at hdiffers
    apply if_pos
    rw [hpool, hfilled, Bool.and_false, Bool.not_false, Bool.true_and, Bool.not_eq_true', ← Bool.not_eq_true]
    exact fun heq => hdiffers (hequals.mp heq)

theorem effective_of_ne_nil (s : UpdatedBrokers) (hne : uris ≠ []) : effective s uris = uris := if_neg hne

/-- Where the comparison orders the URIs, the same brokers are the same set. -/
theorem sameBrokers_iff {others : List URI} (horders : Orders URI.order uris) :
    SameBrokers uris others ↔ SameSet URI.order uris others := by
  constructor
  · intro h
    obtain rfl | hsame := h
    · exact ⟨fun uri huri => ⟨uri, huri, horders.refl huri⟩, fun uri huri => ⟨uri, huri, horders.refl huri⟩⟩
    · exact hsame
  · exact Or.inr

/-- A broker at a host of one letter. -/
def broker (host : UInt8) (port : Int) : URI where
  uri :=
    { scheme := ascii "tcp"
      schemeSpecificPart := ascii "//" ++ [host, 58] ++ Integer.toString port
      authority := [host, 58] ++ Integer.toString port
      host := [host]
      port
      absolute := true
      serverAuthority := true }
  uriString := ascii "tcp://" ++ [host, 58] ++ Integer.toString port

end Failover

end ActiveMQCpp
