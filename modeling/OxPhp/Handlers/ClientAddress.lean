import Mathlib.Data.List.ReduceOption
import OxPhp.Handlers.TrustedProxy

/-!
# What a client can write into its own address

The proxies of a deployment append to the forwarding header; whatever stands left
of their records may come from the client.  The walk from the peer never gets past
a record that is untrusted or has no address.
-/

namespace OxPhp.Handlers

open ByteStr

variable {Ip : Type} {parseIp : Bytes → Option Ip}

/-! ## The hops of a header line by line -/

inductive ForwardingHeader where
  | forwarded
  | xForwardedFor
  deriving DecidableEq

namespace ForwardingHeader

def name : ForwardingHeader → Bytes
  | forwarded => str "forwarded"
  | xForwardedFor => str "x-forwarded-for"

def elementHop (parseIp : Bytes → Option Ip) : ForwardingHeader → Bytes → Option (Hop Ip)
  | forwarded, element => (parseElement parseIp element).hop
  | xForwardedFor, element => parseForwardedFor parseIp (trim element)

def lineHops (parseIp : Bytes → Option Ip) (header : ForwardingHeader) (line : Bytes) :
    List (Option (Hop Ip)) :=
  ((lineText line).splitOn comma).map (header.elementHop parseIp)

def hops (parseIp : Bytes → Option Ip) (header : ForwardingHeader) (lines : List Bytes) :
    List (Option (Hop Ip)) :=
  lines.flatMap (header.lineHops parseIp)

end ForwardingHeader

theorem trim_cons_space (s : Bytes) : trim (32 :: s) = trim s := by
  have hs : isAsciiWhitespace 32 = true := by decide
  simp [trim, trimMatches, hs]

theorem parseElement_cons_space (element : Bytes) :
    parseElement parseIp (32 :: element) = parseElement parseIp element := by
  have hp : ∀ (entry : ForwardedEntry Ip) pair,
      entry.readPair parseIp (32 :: pair) = entry.readPair parseIp pair := by
    intro entry pair
    simp only [ForwardedEntry.readPair, trim_cons_space]
  unfold parseElement
  rw [List.splitOn_cons_eq_if_modifyHead]
  cases h : element.splitOn 59 with
  | nil => exact absurd h (List.splitOn_ne_nil 59 element)
  | cons pair pairs => simp [hp]

theorem parseForwarded_joined (texts : List Bytes) (hne : texts ≠ []) :
    parseForwarded parseIp ((str ", ").intercalate texts) =
      texts.flatMap (parseForwarded parseIp) := by
  induction texts with
  | nil => exact absurd rfl hne
  | cons text texts ih =>
    cases texts with
    | nil => simp [List.intercalate]
    | cons text' texts =>
      have hj : (str ", ").intercalate (text :: text' :: texts) =
          text ++ comma :: 32 :: (str ", ").intercalate (text' :: texts) := by
        simp [List.intercalate, show str ", " = [comma, 32] by decide]
      have hb : ∀ s : Bytes, parseForwarded parseIp (32 :: s) = parseForwarded parseIp s := by
        intro s
        have hc : ¬(32 : UInt8) = comma := by decide
        unfold parseForwarded
        rw [List.splitOn_cons_eq_if_modifyHead]
        cases h : s.splitOn comma with
        | nil => exact absurd h (List.splitOn_ne_nil comma s)
        | cons element elements => simp [hc, parseElement_cons_space]
      have hsplit : parseForwarded parseIp
          (text ++ comma :: 32 :: (str ", ").intercalate (text' :: texts)) =
          parseForwarded parseIp text ++
            parseForwarded parseIp (32 :: (str ", ").intercalate (text' :: texts)) := by
        simp only [parseForwarded, List.splitOn_append_cons_self, List.map_append]
      rw [List.flatMap_cons, hj, hsplit, hb, ih (by simp)]

theorem requestChain_eq (headers : HeaderMap) : requestChain parseIp headers =
      let header : ForwardingHeader :=
        if headers.getAll (str "forwarded") = [] then .xForwardedFor else .forwarded
      .fromHops (header.hops parseIp (headers.getAll header.name)) := by
  unfold requestChain forwardedCombined
  simp only [List.isEmpty_iff, List.map_eq_nil_iff]
  by_cases hnil : headers.getAll (str "forwarded") = []
  · simp only [hnil, if_true, xForwardedForHops, ForwardingHeader.hops, ForwardingHeader.name,
      List.map_flatMap]
    rfl
  · simp only [hnil, if_false]
    rw [parseForwarded_joined _ (by simpa using hnil), List.map_flatMap, List.flatMap_map]
    simp only [ForwardingHeader.hops, ForwardingHeader.name, parseForwarded, List.map_map]
    rfl

/-! ## The client's text -/

/-- What a client puts in front of the records: lines of its own, and text that
the first record's line goes on from, readable as the line is. -/
structure ClientText where
  lines : List Bytes
  text : Option Bytes
  readable : ∀ t, text = some t → isReadable t = true

def ClientText.inFrontOf (client : ClientText) (first : Bytes) (rest : List Bytes) : List Bytes :=
  client.lines ++ (client.text.elim first fun t => t ++ comma :: first) :: rest

theorem isReadable_append_comma {t : Bytes} (ht : isReadable t = true) (s : Bytes) :
    isReadable (t ++ comma :: s) = isReadable s := by
  unfold isReadable at ht ⊢
  rw [List.all_append, ht, List.all_cons]
  rfl

theorem ForwardingHeader.lineHops_append (parseIp : Bytes → Option Ip)
    (header : ForwardingHeader) {t : Bytes} (ht : isReadable t = true) (line : Bytes) :
    ∃ own, header.lineHops parseIp (t ++ comma :: line) = own ++ header.lineHops parseIp line := by
  unfold lineHops lineText toStr
  rw [isReadable_append_comma ht]
  cases isReadable line with
  | false => exact ⟨[], rfl⟩
  | true =>
    refine ⟨(t.splitOn comma).map (header.elementHop parseIp), ?_⟩
    simp only [if_true, Option.getD_some, List.splitOn_append_cons_self, List.map_append]

theorem ForwardingHeader.hops_inFrontOf (parseIp : Bytes → Option Ip)
    (header : ForwardingHeader) (client : ClientText) (first : Bytes) (rest : List Bytes) :
    ∃ own, header.hops parseIp (client.inFrontOf first rest) =
      own ++ header.hops parseIp (first :: rest) := by
  unfold hops ClientText.inFrontOf
  rw [List.flatMap_append, List.flatMap_cons, List.flatMap_cons]
  cases ht : client.text with
  | none => exact ⟨client.lines.flatMap (header.lineHops parseIp), rfl⟩
  | some t =>
    obtain ⟨own, hown⟩ := header.lineHops_append parseIp (client.readable t ht) first
    refine ⟨client.lines.flatMap (header.lineHops parseIp) ++ own, ?_⟩
    rw [Option.elim_some, hown, List.append_assoc, List.append_assoc]

/-! ## The walk over the chain -/

/-- The walk from the peer does not get past this hop. -/
def TrustedProxyConfig.Stops (config : TrustedProxyConfig Ip) (hop : Option (Hop Ip)) : Prop :=
  ∀ h, hop = some h → config.isTrusted h.1 = false

theorem foldl_push_of_none_mem {hops : List (Option (Hop Ip))} (h : none ∈ hops)
    (c c' : Chain Ip) : hops.foldl Chain.push c = hops.foldl Chain.push c' := by
  induction hops generalizing c c' with
  | nil => cases h
  | cons hop hops ih =>
    rcases List.mem_cons.mp h with rfl | hmem
    · rfl
    · exact ih hmem _ _

theorem foldl_push_of_none_not_mem {hops : List (Option (Hop Ip))} (h : none ∉ hops)
    (c : Chain Ip) : (hops.foldl Chain.push c).hops = c.hops ++ hops.reduceOption := by
  induction hops generalizing c with
  | nil => simp
  | cons hop hops ih =>
    obtain ⟨hhop, hh⟩ := not_or.mp (mt List.mem_cons.mpr h)
    obtain ⟨hop, rfl⟩ := Option.ne_none_iff_exists'.mp (Ne.symm hhop)
    rw [List.foldl_cons, ih hh, List.reduceOption_cons_of_some]
    simp [Chain.push]

section Walk

variable {config : TrustedProxyConfig Ip} {own hops : List (Hop Ip)}

theorem isOwnProxy_of_not_trusted {ip : Ip} (h : config.isTrusted ip = false) :
    config.isOwnProxy ip = false := by
  rw [TrustedProxyConfig.isTrusted, Bool.or_eq_false_iff] at h
  rw [TrustedProxyConfig.isOwnProxy, h.1, Bool.and_false]

theorem extractClientIp_append {hop : Hop Ip} (hmem : hop ∈ hops)
    (hs : config.isTrusted hop.1 = false) :
    config.extractClientIp (own ++ hops) = config.extractClientIp hops := by
  have hf : (hops.reverse.find? fun hop => !config.isTrusted hop.1).isSome = true :=
    List.find?_isSome.mpr ⟨hop, List.mem_reverse.mpr hmem, by simp [hs]⟩
  obtain ⟨found, hf⟩ := Option.isSome_iff_exists.mp hf
  simp only [TrustedProxyConfig.extractClientIp, List.reverse_append, List.find?_append, hf,
    Option.some_or]

theorem cameThroughCloudflare_append {hop : Hop Ip} (hmem : hop ∈ hops)
    (hs : config.isTrusted hop.1 = false) (peer : Ip) :
    config.cameThroughCloudflare peer (own ++ hops) = config.cameThroughCloudflare peer hops := by
  have hf : ((peer :: hops.reverse.map Prod.fst).find? fun ip =>
      !config.isOwnProxy ip).isSome = true :=
    List.find?_isSome.mpr ⟨hop.1,
      List.mem_cons_of_mem _ (List.mem_map_of_mem (List.mem_reverse.mpr hmem)),
      by simp [isOwnProxy_of_not_trusted hs]⟩
  obtain ⟨found, hf⟩ := Option.isSome_iff_exists.mp hf
  simp only [TrustedProxyConfig.cameThroughCloudflare, List.reverse_append, List.map_append]
  rw [← List.cons_append, List.find?_append, hf, Option.some_or]

/-- **The walk stays right of a stop**: what comes before the records does not
change the client's address. -/
theorem resolveClient_append {own hops : List (Option (Hop Ip))}
    (hs : ∃ hop ∈ hops, config.Stops hop) (peer : Ip) (headers : HeaderMap) :
    resolveClient parseIp config peer headers (.fromHops (own ++ hops)) =
      resolveClient parseIp config peer headers (.fromHops hops) := by
  unfold Chain.fromHops
  rw [List.foldl_append]
  by_cases hn : none ∈ hops
  · rw [foldl_push_of_none_mem hn _ { hops := [] }]
  · obtain ⟨hop, hmem, hs⟩ := hs
    obtain ⟨hop, rfl⟩ := Option.ne_none_iff_exists'.mp (ne_of_mem_of_not_mem hmem hn)
    have hmem' : hop ∈ hops.reduceOption := List.reduceOption_mem_iff.mpr hmem
    have ht := hs hop rfl
    simp only [resolveClient, foldl_push_of_none_not_mem hn, List.nil_append,
      cameThroughCloudflare_append hmem' ht, extractClientIp_append hmem' ht]

end Walk

/-! ## The client's address -/

theorem handle_inFrontOf (config : TrustedProxyConfig Ip) {header : ForwardingHeader}
    {first : Bytes} {rest : List Bytes}
    (hs : ∃ hop ∈ header.hops parseIp (first :: rest), config.Stops hop) {client : ClientText}
    {event : RequestReceived Ip}
    (hl : event.headers.getAll header.name = client.inFrontOf first rest)
    (hr : header = .xForwardedFor → event.headers.getAll (str "forwarded") = [])
    (ht : config.isTrusted event.remoteAddr.1 = true) : (handle parseIp config event).remoteAddr =
      (resolveClient parseIp config event.remoteAddr.1 event.headers
        (.fromHops (header.hops parseIp (first :: rest)))).elim event.remoteAddr
          fun client => (client.1, client.2.getD 0) := by
  have hh : (if event.headers.getAll (str "forwarded") = [] then .xForwardedFor
      else .forwarded) = header := by
    cases header with
    | xForwardedFor => rw [if_pos (hr rfl)]
    | forwarded =>
      refine if_neg fun hnil => ?_
      rw [ForwardingHeader.name, hnil] at hl
      exact absurd hl.symm (by simp [ClientText.inFrontOf])
  obtain ⟨own, hown⟩ := header.hops_inFrontOf parseIp client first rest
  simp only [handle, ht, Bool.not_true, Bool.false_eq_true, if_false, requestChain_eq,
    hh, hl, hown, resolveClient_append hs]

theorem resolveClient_congr (config : TrustedProxyConfig Ip) (peer : Ip) (chain : Chain Ip)
    {he₁ he₂ : HeaderMap}
    (hcf : he₁.getAll (str "cf-connecting-ip") = he₂.getAll (str "cf-connecting-ip")) :
    resolveClient parseIp config peer he₁ chain = resolveClient parseIp config peer he₂ chain := by
  simp only [resolveClient, cfConnectingIp, hcf]

/-- **A client cannot choose its address.** Two requests from one peer that
differ in what their clients put in front of the same records resolve to the
same address and port, when one of the records stops the walk. -/
theorem client_address_unforgeable (parseIp : Bytes → Option Ip) (config : TrustedProxyConfig Ip)
    (header : ForwardingHeader) (first : Bytes) (rest : List Bytes)
    (hstop : ∃ hop ∈ header.hops parseIp (first :: rest), config.Stops hop)
    (client₁ client₂ : ClientText) (event₁ event₂ : RequestReceived Ip)
    (hpeer : event₁.remoteAddr = event₂.remoteAddr)
    (hlines₁ : event₁.headers.getAll header.name = client₁.inFrontOf first rest)
    (hlines₂ : event₂.headers.getAll header.name = client₂.inFrontOf first rest)
    (hforwarded : header = .xForwardedFor →
      event₁.headers.getAll (str "forwarded") = event₂.headers.getAll (str "forwarded"))
    (hcf : event₁.headers.getAll (str "cf-connecting-ip") =
      event₂.headers.getAll (str "cf-connecting-ip")) :
    (handle parseIp config event₁).remoteAddr = (handle parseIp config event₂).remoteAddr := by
  cases ht : config.isTrusted event₁.remoteAddr.1 with
  | false =>
    have ht₂ : config.isTrusted event₂.remoteAddr.1 = false := hpeer ▸ ht
    simp only [handle, ht₂, Bool.not_false, if_true, hpeer]
  | true =>
    by_cases hr : header = .xForwardedFor → event₁.headers.getAll (str "forwarded") = []
    · have hr₂ : header = .xForwardedFor → event₂.headers.getAll (str "forwarded") = [] :=
        fun hh => (hforwarded hh).symm.trans (hr hh)
      rw [handle_inFrontOf config hstop hlines₁ hr ht,
        handle_inFrontOf config hstop hlines₂ hr₂ (hpeer ▸ ht), hpeer,
        resolveClient_congr config _ _ hcf]
    · -- both chains are read from the same `Forwarded` lines
      obtain ⟨hh, hne⟩ := Classical.not_imp.mp hr
      have hs := hforwarded hh
      have hne₂ : event₂.headers.getAll (str "forwarded") ≠ [] := hs ▸ hne
      have hc : requestChain parseIp event₁.headers = requestChain parseIp event₂.headers := by
        simp only [requestChain_eq, hne₂, if_false, ForwardingHeader.name, hs]
      simp only [handle, hc, hpeer, resolveClient_congr config _ _ hcf]
      split
      · exact hpeer
      · rfl

def dotted (s : Bytes) : Option Bytes :=
  if s ≠ [] ∧ s.all (fun b => isAsciiDigit b || b == dot) then some s else none

def oneProxy : TrustedProxyConfig Bytes where
  networks := [(· == str "10.0.0.1")]
  cloudflare := []

def throughProxy (lines : List Bytes) : RequestReceived Bytes where
  remoteAddr := (str "10.0.0.1", 41000)
  headers := lines.map fun line => (str "x-forwarded-for", line)
  metadata := []

theorem client_address_unforgeable_spoofed :
    (handle dotted oneProxy (throughProxy [str "\"1.1.1.1,, 203.0.113.9"])).remoteAddr =
      (handle dotted oneProxy
        (throughProxy [[255], str "x", str " 203.0.113.9"])).remoteAddr :=
  client_address_unforgeable dotted oneProxy .xForwardedFor (str " 203.0.113.9") []
    ⟨some (str "203.0.113.9", none), by decide, by
      rintro hop ⟨⟩
      decide⟩
    { lines := [], text := some (str "\"1.1.1.1,"), readable := by decide }
    { lines := [[255], str "x"], text := none, readable := by decide }
    _ _ rfl (by decide) (by decide) (fun _ => by decide) (by decide)

/-- Unreadable text takes the record on its line with it: the address is then
the peer's. -/
theorem unreadable_text_hides_record : oneProxy.isTrusted (str "203.0.113.9") = false ∧
      (handle dotted oneProxy (throughProxy [str "1.1.1.1" ++ str ", 203.0.113.9"])).remoteAddr =
        (str "203.0.113.9", 0) ∧
      (handle dotted oneProxy (throughProxy [[255] ++ str ", 203.0.113.9"])).remoteAddr =
        (str "10.0.0.1", 41000) := by
  decide

end OxPhp.Handlers
