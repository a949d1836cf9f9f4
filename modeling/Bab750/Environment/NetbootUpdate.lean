import Bab750.Console.BootArguments
import Bab750.Network.AddressText

/-!
# What a network boot leaves in the environment

`netboot_update_env` of `common/cmd_net.c` and `eth_setenv_enetaddr` of `net/eth.c`. The addresses
that were received are the ones that are read back.
-/

namespace Bab750
namespace Environment

open Foundation
open Support (vsprintf Printed)
open Network
open Console.Netboot (setenvArgs Storable setenvArgs_storable)

/-- `setenv`; the empty value stands at `argv[2]`. -/
def setenvText (s : BoardState) (name value : List Byte) : Option (Int × BoardState) :=
  if value = [] then
    ((setenvArgs name []).bind (doSetenv { s with lowMemory := [] })).map
      (fun r => (r.1, { r.2 with lowMemory := s.lowMemory }))
  else (setenvArgs name [value]).bind (doSetenv s)

/-- What the protocols have received; the texts are in arrays. -/
structure NetbootResults where
  ourGatewayIp : BitVec 32
  ourSubnetMask : BitVec 32
  ourHostName : CString
  ourRootPath : CString
  ourIp : BitVec 32
  serverIp : BitVec 32
  ourDnsIp : BitVec 32
  ourNisDomain : CString
  hostName_fits : ourHostName.bytes.length < 32
  rootPath_fits : ourRootPath.bytes.length < 64
  nisDomain_fits : ourNisDomain.bytes.length < 32

def addressUpdate (name : List Byte) (ip : BitVec 32) : List (List Byte × List Byte) :=
  if ip = 0#32 then [] else (ipToString ip).toList.map (fun text => (name, text))

def textUpdate (name : List Byte) (text : CString) : List (List Byte × List Byte) :=
  if text.bytes = [] then [] else [(name, text.bytes)]

/-- The calls of `netboot_update_env`. -/
def netbootUpdates (r : NetbootResults) : List (List Byte × List Byte) :=
  addressUpdate (ascii "gatewayip") r.ourGatewayIp ++
    addressUpdate (ascii "netmask") r.ourSubnetMask ++
    textUpdate (ascii "hostname") r.ourHostName ++
    textUpdate (ascii "rootpath") r.ourRootPath ++
    addressUpdate (ascii "ipaddr") r.ourIp ++
    addressUpdate (ascii "serverip") r.serverIp ++
    addressUpdate (ascii "dnsip") r.ourDnsIp ++
    textUpdate (ascii "domain") r.ourNisDomain

def setenvUpdates (s : BoardState) (updates : List (List Byte × List Byte)) :
    Option BoardState :=
  updates.foldlM (fun s update => (setenvText s update.1 update.2).map Prod.snd) s

def netbootUpdateEnv (s : BoardState) (r : NetbootResults) : Option BoardState :=
  setenvUpdates s (netbootUpdates r)

/-!
# Calls that have room
-/

def updatePair (update : List Byte × List Byte) : List Byte × List (List Byte) :=
  (update.1, [update.2])

/-- A call with a name that nothing looks at, and a value. -/
structure Settable (update : List Byte × List Byte) : Prop where
  free : FreeName update.1
  name : 0#8 ∉ update.1
  value : 0#8 ∉ update.2
  nonempty : update.2 ≠ []
  short : update.1.length + update.2.length + 3 < 2 ^ 31

def updatedValue (name : List Byte) (updates : List (List Byte × List Byte)) :
    Option (List Byte) :=
  (updates.filter (fun update => update.1 = name)).getLast?.map Prod.snd

/-- The address of the board behind a sequence of calls. -/
def updatedCopy (ip : BitVec 32) (updates : List (List Byte × List Byte)) : BitVec 32 :=
  updates.foldl (fun ip update => if update.1 = ascii "ipaddr" then parseIpAddr update.2 else ip)
    ip

theorem Settable.storable {update : List Byte × List Byte} (h : Settable update) :
    Storable (updatePair update) := by
  refine ⟨h.name, fun v hv => ?_, ?_⟩
  · rw [List.mem_singleton.mp hv]
    exact h.value
  · have hshort := h.short
    show update.1.length + (update.2.length + 1 + 0) + 2 < 2 ^ 31
    omega

/-- The arguments of the calls of `_do_setenv`. -/
def updateArgs (updates : List (List Byte × List Byte)) : List SetenvArgs :=
  updates.filterMap (fun update => setenvArgs update.1 [update.2])

theorem updateArgs_cons {update : List Byte × List Byte} (h : Settable update)
    (updates : List (List Byte × List Byte)) :
    exists call, setenvArgs update.1 [update.2] = some call ∧ call.pair = updatePair update ∧
      updateArgs (update :: updates) = call :: updateArgs updates := by
  rcases setenvArgs_storable h.storable with ⟨call, hcall, hpair⟩
  refine ⟨call, hcall, hpair, ?_⟩
  unfold updateArgs
  exact List.filterMap_cons_some hcall

theorem setenvText_fits {s : BoardState} {vars : List Variable}
    {update : List Byte × List Byte} {call : SetenvArgs} (hdata : WellFormed s.data vars)
    (h : Settable update) (hcall : setenvArgs update.1 [update.2] = some call)
    (hpair : call.pair = updatePair update) (hfits : Fits vars call) :
    exists t, setenvText s update.1 update.2 = some (0, t) ∧
      WellFormed t.data (assign vars call) ∧
      (forall name, lookupVariable name (assign vars call) =
        if update.1 = name then some update.2 else lookupVariable name vars) ∧
      t.ipAddr = (if update.1 = ascii "ipaddr" then parseIpAddr update.2 else s.ipAddr) := by
  have hname : call.name.bytes = update.1 := congrArg Prod.fst hpair
  have hvalues : call.valueBytes = [update.2] := congrArg Prod.snd hpair
  have hfree : FreeName call.name.bytes := by
    rw [hname]
    exact h.free
  rcases doSetenv_fits hdata hfree hfits with ⟨t, hdo, hwf⟩
  refine ⟨t, ?_, hwf, ?_, ?_⟩
  · unfold setenvText
    rw [if_neg h.nonempty, hcall]
    exact hdo
  · intro name
    by_cases heq : update.1 = name
    · rw [if_pos heq, ← heq, ← hname, lookupVariable_assign_self vars hfree]
      unfold SetenvArgs.assigned SetenvArgs.value
      rw [hvalues, if_neg (List.cons_ne_nil _ _)]
      simp [joinValues]
    · rw [if_neg heq]
      exact lookupVariable_assign_other vars (by rw [hname]; exact Ne.symm heq)
  · rw [(doSetenv_copy hdo).2, hvalues, hname]
    unfold copyBehind
    simp

theorem updatedValue_append (name : List Byte) (first second : List (List Byte × List Byte)) :
    updatedValue name (first ++ second) =
      (updatedValue name second).or (updatedValue name first) := by
  unfold updatedValue
  rw [List.filter_append, List.getLast?_append]
  cases (second.filter (fun update => update.1 = name)).getLast? <;> rfl

theorem updatedValue_single (name : List Byte) (update : List Byte × List Byte) :
    updatedValue name [update] = if update.1 = name then some update.2 else none := by
  unfold updatedValue
  by_cases h : update.1 = name
  · rw [if_pos h, List.filter_cons_of_pos (by simpa using h)]
    rfl
  · rw [if_neg h, List.filter_cons_of_neg (by simpa using h)]
    rfl

theorem updatedCopy_append (ip : BitVec 32) (first second : List (List Byte × List Byte)) :
    updatedCopy ip (first ++ second) = updatedCopy (updatedCopy ip first) second :=
  List.foldl_append

theorem setenvUpdates_fits (updates : List (List Byte × List Byte)) :
    forall (s : BoardState) (vars : List Variable), WellFormed s.data vars ->
      (forall update, update ∈ updates -> Settable update) ->
      FitsAll vars (updateArgs updates) ->
      exists t after, setenvUpdates s updates = some t ∧ WellFormed t.data after ∧
        (forall name, lookupVariable name after =
          (updatedValue name updates).or (lookupVariable name vars)) ∧
        t.ipAddr = updatedCopy s.ipAddr updates := by
  induction updates with
  | nil =>
      intro s vars hdata _ _
      exact ⟨s, vars, rfl, hdata, fun name => rfl, rfl⟩
  | cons update updates ih =>
      intro s vars hdata hset hfits
      have hupdate := hset update List.mem_cons_self
      rcases updateArgs_cons hupdate updates with ⟨call, hcall, hpair, hargs⟩
      rw [hargs] at hfits
      rcases setenvText_fits hdata hupdate hcall hpair hfits.left with
        ⟨t, hdone, hwf, hlookup, hcopy⟩
      rcases ih t _ hwf (fun u hu => hset u (List.mem_cons_of_mem update hu)) hfits.right with
        ⟨t', after, hrun, hwf', hlookup', hcopy'⟩
      refine ⟨t', after, ?_, hwf', fun name => ?_, ?_⟩
      · unfold setenvUpdates at hrun ⊢
        rw [List.foldlM_cons, hdone]
        exact hrun
      · rw [hlookup', hlookup, show update :: updates = [update] ++ updates from rfl,
          updatedValue_append, updatedValue_single]
        cases updatedValue name updates with
        | none =>
            split <;> rfl
        | some value => rfl
      · rw [hcopy', hcopy]
        rfl

theorem updateArgs_extents (updates : List (List Byte × List Byte))
    (h : forall update, update ∈ updates -> Settable update) :
    ((updateArgs updates).map (fun args => extent args.pair)).sum =
      (updates.map (fun update => extent (updatePair update))).sum := by
  induction updates with
  | nil =>
      rfl
  | cons update updates ih =>
      rcases updateArgs_cons (h update List.mem_cons_self) updates with ⟨call, _, hpair, hargs⟩
      rw [hargs, List.map_cons, List.map_cons, List.sum_cons, List.sum_cons, hpair,
        ih (fun u hu => h u (List.mem_cons_of_mem update hu))]

theorem updateArgs_room {vars : List Variable} {updates : List (List Byte × List Byte)}
    (h : forall update, update ∈ updates -> Settable update)
    (hroom : (encodeVariables vars).length +
      (updates.map (fun update => extent (updatePair update))).sum < envSize) :
    FitsAll vars (updateArgs updates) := by
  refine fitsAll_of_room vars (updateArgs updates) ?_
  rw [updateArgs_extents updates h]
  exact hroom

/-!
# The calls of a network boot
-/

theorem decimalBytesOf_length {d : Nat} (hd : d < 256) :
    0 < (decimalBytesOf d).length ∧ (decimalBytesOf d).length ≤ 3 := by
  have hall : forall e, e < 256 ->
      0 < (decimalBytesOf e).length ∧ (decimalBytesOf e).length ≤ 3 := by decide +kernel
  exact hall d hd

theorem dotted_length {a b c d : Nat} (ha : a < 256) (hb : b < 256) (hc : c < 256)
    (hd : d < 256) : 0 < (dotted a b c d).length ∧ (dotted a b c d).length ≤ 15 := by
  have hla := decimalBytesOf_length ha
  have hlb := decimalBytesOf_length hb
  have hlc := decimalBytesOf_length hc
  have hld := decimalBytesOf_length hd
  unfold dotted
  simp only [List.length_append, List.length_cons]
  omega

theorem ipToString_text (x : BitVec 32) :
    exists text, ipToString x = some text ∧ text ≠ [] ∧ text.length ≤ 15 ∧ 0#8 ∉ text ∧
      parseIpAddr text = x := by
  rcases stringToIp_ipToString x with ⟨text, htext, hread⟩
  have heq := ipToString_eq x
  rw [htext] at heq
  have hlength := dotted_length (show x.toNat / 2 ^ 24 % 256 < 256 from Nat.mod_lt _ (by decide))
    (show x.toNat / 2 ^ 16 % 256 < 256 from Nat.mod_lt _ (by decide))
    (show x.toNat / 2 ^ 8 % 256 < 256 from Nat.mod_lt _ (by decide))
    (show x.toNat % 256 < 256 from Nat.mod_lt _ (by decide))
  rw [← Option.some.inj heq] at hlength
  refine ⟨text, htext, List.ne_nil_of_length_pos hlength.1, hlength.2, ?_, hread⟩
  rw [Option.some.inj heq]
  exact dotted_noNul _ _ _ _

theorem addressUpdate_eq (name : List Byte) (ip : BitVec 32) :
    exists text, text ≠ [] ∧ text.length ≤ 15 ∧ 0#8 ∉ text ∧ parseIpAddr text = ip ∧
      addressUpdate name ip = if ip = 0#32 then [] else [(name, text)] := by
  rcases ipToString_text ip with ⟨text, htext, hne, hlength, hnul, hread⟩
  refine ⟨text, hne, hlength, hnul, hread, ?_⟩
  unfold addressUpdate
  rw [htext]
  rfl

theorem updatedValue_address (name other : List Byte) (ip : BitVec 32) :
    (updatedValue name (addressUpdate other ip) = none ∧ (other = name -> ip = 0#32)) ∨
      (exists text, updatedValue name (addressUpdate other ip) = some text ∧
        parseIpAddr text = ip ∧ other = name ∧ ip ≠ 0#32) := by
  rcases addressUpdate_eq other ip with ⟨text, _, _, _, hread, hupdate⟩
  rw [hupdate]
  by_cases hzero : ip = 0#32
  · rw [if_pos hzero]
    exact Or.inl ⟨rfl, fun _ => hzero⟩
  · rw [if_neg hzero, updatedValue_single]
    by_cases hname : other = name
    · exact Or.inr ⟨text, if_pos hname, hread, hname, hzero⟩
    · exact Or.inl ⟨if_neg hname, fun heq => absurd heq hname⟩

theorem updatedValue_address_other {name other : List Byte} (h : other ≠ name)
    (ip : BitVec 32) : updatedValue name (addressUpdate other ip) = none := by
  rcases updatedValue_address name other ip with ⟨hnone, _⟩ | ⟨_, _, _, heq, _⟩
  · exact hnone
  · exact absurd heq h

theorem updatedValue_text_self (name : List Byte) (text : CString) :
    updatedValue name (textUpdate name text) =
      if text.bytes = [] then none else some text.bytes := by
  unfold textUpdate
  by_cases hnil : text.bytes = []
  · rw [if_pos hnil, if_pos hnil]
    rfl
  · rw [if_neg hnil, if_neg hnil, updatedValue_single]
    exact if_pos rfl

theorem updatedValue_text_other {name other : List Byte} (h : other ≠ name) (text : CString) :
    updatedValue name (textUpdate other text) = none := by
  unfold textUpdate
  split
  · rfl
  · rw [updatedValue_single]
    exact if_neg h

theorem updatedCopy_address (name : List Byte) (copy ip : BitVec 32) :
    updatedCopy copy (addressUpdate name ip) =
      if name = ascii "ipaddr" ∧ ip ≠ 0#32 then ip else copy := by
  rcases addressUpdate_eq name ip with ⟨text, _, _, _, hread, hupdate⟩
  rw [hupdate]
  by_cases hzero : ip = 0#32
  · rw [if_pos hzero, if_neg (fun h => h.2 hzero)]
    rfl
  · rw [if_neg hzero]
    show (if name = ascii "ipaddr" then parseIpAddr text else copy) = _
    rw [hread]
    by_cases hname : name = ascii "ipaddr"
    · rw [if_pos hname, if_pos ⟨hname, hzero⟩]
    · rw [if_neg hname, if_neg (fun h => hname h.1)]

theorem updatedCopy_text {name : List Byte} (h : name ≠ ascii "ipaddr") (copy : BitVec 32)
    (text : CString) : updatedCopy copy (textUpdate name text) = copy := by
  unfold textUpdate
  split
  · rfl
  · exact if_neg h

/-- A name of `netboot_update_env` can be set. -/
def UpdateName (name : List Byte) : Prop :=
  FreeName name ∧ 0#8 ∉ name ∧ name.length ≤ 9

instance (name : List Byte) : Decidable (UpdateName name) :=
  inferInstanceAs (Decidable (FreeName name ∧ 0#8 ∉ name ∧ name.length ≤ 9))

/-- The calls can be made, and take no more room than this. -/
def Needs (updates : List (List Byte × List Byte)) (n : Nat) : Prop :=
  (forall update, update ∈ updates -> Settable update) ∧
    (updates.map (fun update => extent (updatePair update))).sum ≤ n

theorem Needs.append {first second : List (List Byte × List Byte)} {m n : Nat}
    (h : Needs first m) (h' : Needs second n) : Needs (first ++ second) (m + n) := by
  refine ⟨fun update hmem => ?_, ?_⟩
  · rcases List.mem_append.mp hmem with hmem | hmem
    · exact h.1 update hmem
    · exact h'.1 update hmem
  · rw [List.map_append, List.sum_append]
    exact Nat.add_le_add h.2 h'.2

theorem addressUpdate_needs {name : List Byte} (h : UpdateName name) (ip : BitVec 32) :
    Needs (addressUpdate name ip) (name.length + 17) := by
  rcases addressUpdate_eq name ip with ⟨text, hne, hlength, hnul, _, hupdate⟩
  rcases h with ⟨hfree, hname, hshort⟩
  rw [hupdate]
  unfold Needs
  split
  · exact ⟨fun update hmem => absurd hmem List.not_mem_nil, Nat.zero_le _⟩
  · constructor
    · intro update hmem
      rw [List.mem_singleton.mp hmem]
      exact ⟨hfree, hname, hnul, hne, by
        show name.length + text.length + 3 < 2 ^ 31
        omega⟩
    · have hextent : extent (updatePair (name, text)) = name.length + text.length + 2 := by
        unfold extent updatePair
        rw [if_neg (List.cons_ne_nil _ _)]
        simp [joinValues]
      simp only [List.map_cons, List.map_nil, List.sum_cons, List.sum_nil, hextent]
      omega

theorem textUpdate_needs {name : List Byte} (h : UpdateName name) {text : CString} {n : Nat}
    (hn : text.bytes.length < n) (hsmall : n ≤ 64) :
    Needs (textUpdate name text) (name.length + n + 1) := by
  rcases h with ⟨hfree, hname, hshort⟩
  unfold Needs textUpdate
  split
  case isTrue => exact ⟨fun update hmem => absurd hmem List.not_mem_nil, Nat.zero_le _⟩
  case isFalse hne =>
      constructor
      · intro update hmem
        rw [List.mem_singleton.mp hmem]
        exact ⟨hfree, hname, text.noNul, hne, by
          show name.length + text.bytes.length + 3 < 2 ^ 31
          omega⟩
      · have hextent : extent (updatePair (name, text.bytes)) =
            name.length + text.bytes.length + 2 := by
          unfold extent updatePair
          rw [if_neg (List.cons_ne_nil _ _)]
          simp [joinValues]
        simp only [List.map_cons, List.map_nil, List.sum_cons, List.sum_nil, hextent]
        omega

theorem netbootUpdates_needs (r : NetbootResults) : Needs (netbootUpdates r) 273 :=
  have hgateway : UpdateName (ascii "gatewayip") := by decide
  (((((((addressUpdate_needs hgateway r.ourGatewayIp).append
    (addressUpdate_needs (by decide) r.ourSubnetMask)).append
    (textUpdate_needs (by decide) r.hostName_fits (by decide))).append
    (textUpdate_needs (by decide) r.rootPath_fits (by decide))).append
    (addressUpdate_needs (by decide) r.ourIp)).append
    (addressUpdate_needs (by decide) r.serverIp)).append
    (addressUpdate_needs (by decide) r.ourDnsIp)).append
    (textUpdate_needs (by decide) r.nisDomain_fits (by decide))

def NetbootResults.addresses (r : NetbootResults) : List (List Byte × BitVec 32) :=
  [(ascii "gatewayip", r.ourGatewayIp), (ascii "netmask", r.ourSubnetMask),
    (ascii "ipaddr", r.ourIp), (ascii "serverip", r.serverIp), (ascii "dnsip", r.ourDnsIp)]

def NetbootResults.texts (r : NetbootResults) : List (List Byte × CString) :=
  [(ascii "hostname", r.ourHostName), (ascii "rootpath", r.ourRootPath),
    (ascii "domain", r.ourNisDomain)]

theorem updatedValue_addresses (r : NetbootResults) {name : List Byte} {ip : BitVec 32}
    (h : (name, ip) ∈ r.addresses) :
    updatedValue name (netbootUpdates r) = updatedValue name (addressUpdate name ip) := by
  unfold NetbootResults.addresses at h
  unfold netbootUpdates
  simp only [List.mem_cons, Prod.mk.injEq, List.not_mem_nil, or_false] at h
  simp only [updatedValue_append]
  rcases h with ⟨rfl, rfl⟩ | ⟨rfl, rfl⟩ | ⟨rfl, rfl⟩ | ⟨rfl, rfl⟩ | ⟨rfl, rfl⟩ <;>
    simp +decide only [updatedValue_address_other, updatedValue_text_other, Option.none_or, ne_eq,
      Option.or_none]

theorem updatedValue_texts (r : NetbootResults) {name : List Byte} {text : CString}
    (h : (name, text) ∈ r.texts) :
    updatedValue name (netbootUpdates r) = updatedValue name (textUpdate name text) := by
  unfold NetbootResults.texts at h
  unfold netbootUpdates
  simp only [List.mem_cons, Prod.mk.injEq, List.not_mem_nil, or_false] at h
  simp only [updatedValue_append]
  rcases h with ⟨rfl, rfl⟩ | ⟨rfl, rfl⟩ | ⟨rfl, rfl⟩ <;>
    simp +decide only [updatedValue_address_other, updatedValue_text_other, Option.none_or, ne_eq,
      Option.or_none]

def NetbootResults.names (r : NetbootResults) : List (List Byte) :=
  r.addresses.map Prod.fst ++ r.texts.map Prod.fst

theorem updatedValue_others (r : NetbootResults) {name : List Byte} (h : name ∉ r.names) :
    updatedValue name (netbootUpdates r) = none := by
  have hne : forall other, other ∈ r.names -> other ≠ name := by
    intro other hother heq
    exact h (heq ▸ hother)
  unfold NetbootResults.names NetbootResults.addresses NetbootResults.texts at hne
  simp only [List.map_cons, List.map_nil, List.cons_append, List.nil_append, List.mem_cons,
    List.not_mem_nil, or_false, forall_eq_or_imp, forall_eq] at hne
  rcases hne with ⟨h1, h2, h3, h4, h5, h6, h7, h8⟩
  unfold netbootUpdates
  simp only [updatedValue_append, updatedValue_address_other h1, updatedValue_address_other h2,
    updatedValue_address_other h3, updatedValue_address_other h4, updatedValue_address_other h5,
    updatedValue_text_other h6, updatedValue_text_other h7, updatedValue_text_other h8,
    Option.or_none]

theorem updatedCopy_netbootUpdates (copy : BitVec 32) (r : NetbootResults) :
    updatedCopy copy (netbootUpdates r) = if r.ourIp = 0#32 then copy else r.ourIp := by
  unfold netbootUpdates
  simp only [updatedCopy_append, updatedCopy_address]
  simp +decide only [updatedCopy_text, ne_eq, false_and, true_and, if_false, ite_not]

/-!
# Reading the results back
-/

/-- `netboot_update_env`: what was received is read back, and the rest is as it was. -/
theorem netbootUpdateEnv_values {s : BoardState} {vars : List Variable} (r : NetbootResults)
    (hdata : WellFormed s.data vars) (hroom : (encodeVariables vars).length + 273 < envSize) :
    exists t, netbootUpdateEnv s r = some t ∧
      (forall name ip, (name, ip) ∈ r.addresses ->
        getenvIPaddr t name = if ip = 0#32 then getenvIPaddr s name else ip) ∧
      (forall name text, (name, text) ∈ r.texts ->
        getenvString (dataChar t.data) name =
          if text.bytes = [] then getenvString (dataChar s.data) name
          else some (some text.bytes)) ∧
      (forall name, 0#8 ∉ name -> equalsSign ∉ name -> name ∉ r.names ->
        getenvString (dataChar t.data) name = getenvString (dataChar s.data) name) ∧
      t.ipAddr = if r.ourIp = 0#32 then s.ipAddr else r.ourIp := by
  rcases netbootUpdates_needs r with ⟨hset, hneeds⟩
  rcases setenvUpdates_fits (netbootUpdates r) s vars hdata hset
      (updateArgs_room hset (by omega)) with
    ⟨t, after, hrun, hwf, hlookup, hcopy⟩
  have hget : forall name, 0#8 ∉ name -> equalsSign ∉ name ->
      getenvString (dataChar t.data) name =
        some ((updatedValue name (netbootUpdates r)).or (lookupVariable name vars)) ∧
      getenvString (dataChar s.data) name = some (lookupVariable name vars) := by
    intro name hnul hequals
    rw [getenvString_wellFormed hwf hnul, getenvString_wellFormed hdata hnul,
      nameOf_eq_self hequals, hlookup]
    exact ⟨rfl, rfl⟩
  have hnames : forall name, name ∈ r.names -> 0#8 ∉ name ∧ equalsSign ∉ name := by
    show forall name, name ∈ [ascii "gatewayip", ascii "netmask", ascii "ipaddr",
      ascii "serverip", ascii "dnsip", ascii "hostname", ascii "rootpath", ascii "domain"] -> _
    decide
  refine ⟨t, hrun, fun name ip hmem => ?_, fun name text hmem => ?_,
    fun name hnul hequals hother => ?_, ?_⟩
  · rcases hnames name (List.mem_append_left _ (List.mem_map_of_mem hmem)) with ⟨hnul, hequals⟩
    rcases hget name hnul hequals with ⟨hnew, hold⟩
    unfold getenvIPaddr
    rw [hnew, hold, updatedValue_addresses r hmem]
    rcases updatedValue_address name name ip with ⟨hnone, hzero⟩ | ⟨text, hsome, hread, _, hne⟩
    · rw [hnone, if_pos (hzero rfl), Option.none_or]
    · rw [hsome, if_neg hne]
      exact hread
  · rcases hnames name (List.mem_append_right _ (List.mem_map_of_mem hmem)) with ⟨hnul, hequals⟩
    rcases hget name hnul hequals with ⟨hnew, hold⟩
    rw [hnew, hold, updatedValue_texts r hmem, updatedValue_text_self]
    split <;> rfl
  · rcases hget name hnul hequals with ⟨hnew, hold⟩
    rw [hnew, hold, updatedValue_others r hother, Option.none_or]
  · rw [hcopy, updatedCopy_netbootUpdates]

def sampleResults : NetbootResults where
  ourGatewayIp := 0#32
  ourSubnetMask := 0xffffff00#32
  ourHostName := ⟨[], by decide⟩
  ourRootPath := ⟨ascii "/tftp", by decide⟩
  ourIp := 0x0a000002#32
  serverIp := 0x0a000001#32
  ourDnsIp := 0#32
  ourNisDomain := ⟨[], by decide⟩
  hostName_fits := by decide
  rootPath_fits := by decide
  nisDomain_fits := by decide

theorem netbootUpdateEnv_values_sample :
    exists t, netbootUpdateEnv sampleBoard sampleResults = some t ∧
      getenvIPaddr t (ascii "serverip") = 0x0a000001#32 ∧ t.ipAddr = 0x0a000002#32 := by
  rcases netbootUpdateEnv_values sampleResults sampleBoard_wellFormed (by decide) with
    ⟨t, hrun, haddresses, _, _, hcopy⟩
  refine ⟨t, hrun, ?_, hcopy⟩
  have hserver := haddresses (ascii "serverip") 0x0a000001#32 (by decide)
  rw [if_neg (by decide)] at hserver
  exact hserver

end Environment
end Bab750
