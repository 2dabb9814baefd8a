import Sfxge.Oword
import Sfxge.Efx

/-!
# Filter.Siena — the Siena filter tables of `common/efx_filter.c`

Four tables (receive/transmit × IP/MAC), each a bitmap of used entries and an array of saved specs,
and the search depth of every filter type.  The hardware side is the BAR of `Sfxge.Oword`.
A filter type is one of twelve values here, so the `default` branches of the source's switches over
it do not arise; `en_eslp` is not modelled, calls run one at a time.
-/

namespace Sfxge.Filter

open Lib Lib.Prog Errno

/-! ### Specs -/

/-- `siena_filter_type_t` -/
inductive SienaFilterType where
  | RX_TCP_FULL | RX_TCP_WILD | RX_UDP_FULL | RX_UDP_WILD | RX_MAC_FULL | RX_MAC_WILD
  | TX_TCP_FULL | TX_TCP_WILD | TX_UDP_FULL | TX_UDP_WILD | TX_MAC_FULL | TX_MAC_WILD
  deriving Repr, DecidableEq

/-- `siena_filter_tbl_id_t` -/
inductive SienaFilterTblId where
  | RX_IP | RX_MAC | TX_IP | TX_MAC
  deriving Repr, DecidableEq

open SienaFilterType SienaFilterTblId

/-- `siena_filter_spec_t` -/
structure SienaFilterSpec where
  type : SienaFilterType
  flags : U32
  dmaqId : U32
  dword0 : U32
  dword1 : U32
  dword2 : U32
  deriving Repr, DecidableEq

/-- The all-zero spec. -/
def SienaFilterSpec.zero : SienaFilterSpec := ⟨RX_TCP_FULL, 0, 0, 0, 0, 0⟩

def EFX_FILTER_FLAG_RX_RSS : ℕ := 0x01
def EFX_FILTER_FLAG_RX_SCATTER : ℕ := 0x02
def EFX_FILTER_FLAG_RX : ℕ := 0x08
def EFX_FILTER_FLAG_TX : ℕ := 0x10

def EFX_FILTER_MATCH_REM_HOST : BitVec 12 := 0x0001
def EFX_FILTER_MATCH_LOC_HOST : BitVec 12 := 0x0002
def EFX_FILTER_MATCH_REM_PORT : BitVec 12 := 0x0008
def EFX_FILTER_MATCH_LOC_MAC : BitVec 12 := 0x0010
def EFX_FILTER_MATCH_LOC_PORT : BitVec 12 := 0x0020
def EFX_FILTER_MATCH_ETHER_TYPE : BitVec 12 := 0x0040
def EFX_FILTER_MATCH_OUTER_VID : BitVec 12 := 0x0100
def EFX_FILTER_MATCH_IP_PROTO : BitVec 12 := 0x0200

def EFX_ETHER_TYPE_IPV4 : BitVec 16 := 0x0800
def EFX_IPPROTO_TCP : BitVec 8 := 6
def EFX_IPPROTO_UDP : BitVec 8 := 17

/-- An address has a first octet. -/
instance someOctet : NeZero 6 := ⟨by decide⟩

/-- What the Siena code reads of `efx_filter_spec_t`; the hosts are their first 32 bits. -/
structure EfxFilterSpec where
  matchFlags : BitVec 12
  flags : BitVec 6
  dmaqId : BitVec 12
  rssContext : U32
  outerVid : BitVec 16
  locMac : Fin 6 → BitVec 8
  etherType : BitVec 16
  ipProto : BitVec 8
  locPort : BitVec 16
  remPort : BitVec 16
  remHost : U32
  locHost : U32

def hasFlag {w : ℕ} (flags : BitVec w) (flag : ℕ) : Bool := flags &&& BitVec.ofNat w flag ≠ 0

def matchIpWild : BitVec 12 :=
  EFX_FILTER_MATCH_ETHER_TYPE ||| EFX_FILTER_MATCH_IP_PROTO |||
    EFX_FILTER_MATCH_LOC_HOST ||| EFX_FILTER_MATCH_LOC_PORT

def matchIpFull : BitVec 12 :=
  matchIpWild ||| EFX_FILTER_MATCH_REM_HOST ||| EFX_FILTER_MATCH_REM_PORT

def matchMacFull : BitVec 12 := EFX_FILTER_MATCH_LOC_MAC ||| EFX_FILTER_MATCH_OUTER_VID

def matchMacWild : BitVec 12 := EFX_FILTER_MATCH_LOC_MAC

/-- The two IP cases of the switch. -/
def specFromIp (genSpec : EfxFilterSpec) (isFull : Bool) : Except Errno SienaFilterSpec := do
  let isTx := hasFlag genSpec.flags EFX_FILTER_FLAG_TX
  if genSpec.etherType ≠ EFX_ETHER_TYPE_IPV4 then throw ENOTSUP
  if genSpec.locPort = 0 ∨ (isFull ∧ genSpec.remPort = 0) then throw EINVAL
  let type ←
    if genSpec.ipProto = EFX_IPPROTO_TCP then
      pure (if isTx then (if isFull then TX_TCP_FULL else TX_TCP_WILD)
        else (if isFull then RX_TCP_FULL else RX_TCP_WILD))
    else if genSpec.ipProto = EFX_IPPROTO_UDP then
      pure (if isTx then (if isFull then TX_UDP_FULL else TX_UDP_WILD)
        else (if isFull then RX_UDP_FULL else RX_UDP_WILD))
    else throw ENOTSUP
  let rhost : U32 := if isFull then genSpec.remHost else 0
  let rport : BitVec 16 := if isFull then genSpec.remPort else 0
  let (host1, host2) := if isTx then (genSpec.locHost, rhost) else (rhost, genSpec.locHost)
  -- the ports are swapped in a UDP wildcard filter
  let (port1, port2) :=
    if isTx then
      if type = TX_UDP_WILD then (rport, genSpec.locPort) else (genSpec.locPort, rport)
    else
      if type = RX_UDP_WILD then (genSpec.locPort, rport) else (rport, genSpec.locPort)
  pure
    { type
      flags := genSpec.flags.setWidth 32
      dmaqId := genSpec.dmaqId.setWidth 32
      dword0 := host1 <<< 16 ||| port1.setWidth 32
      dword1 := port2.setWidth 32 <<< 16 ||| host1 >>> 16
      dword2 := host2 }

/-- The two MAC cases of the switch. -/
def specFromMac (genSpec : EfxFilterSpec) (isFull : Bool) : SienaFilterSpec :=
  let mac (i : Fin 6) : U32 := (genSpec.locMac i).setWidth 32
  { type :=
      if hasFlag genSpec.flags EFX_FILTER_FLAG_TX then (if isFull then TX_MAC_FULL else TX_MAC_WILD)
      else (if isFull then RX_MAC_FULL else RX_MAC_WILD)
    flags := genSpec.flags.setWidth 32
    dmaqId := genSpec.dmaqId.setWidth 32
    dword0 := if isFull then genSpec.outerVid.setWidth 32 else 0
    dword1 := mac 2 <<< 24 ||| mac 3 <<< 16 ||| mac 4 <<< 8 ||| mac 5
    dword2 := mac 0 <<< 8 ||| mac 1 }

def sienaFilterSpecFromGenSpec (genSpec : EfxFilterSpec) : Except Errno SienaFilterSpec :=
  -- Falconsiena only has one RSS context
  if hasFlag genSpec.flags EFX_FILTER_FLAG_RX_RSS ∧ genSpec.rssContext ≠ 0 then throw EINVAL
  else if genSpec.matchFlags = matchIpFull then specFromIp genSpec true
  else if genSpec.matchFlags = matchIpWild then specFromIp genSpec false
  else if genSpec.matchFlags = matchMacFull then pure (specFromMac genSpec true)
  else if genSpec.matchFlags = matchMacWild then pure (specFromMac genSpec false)
  else throw ENOTSUP

def sienaFilterTblId : SienaFilterType → SienaFilterTblId
  | RX_TCP_FULL | RX_TCP_WILD | RX_UDP_FULL | RX_UDP_WILD => RX_IP
  | RX_MAC_FULL | RX_MAC_WILD => RX_MAC
  | TX_TCP_FULL | TX_TCP_WILD | TX_UDP_FULL | TX_UDP_WILD => TX_IP
  | TX_MAC_FULL | TX_MAC_WILD => TX_MAC

/-! ### Encoding -/

def FRF_BZ_RSS_EN : Field := ⟨110, 1⟩
def FRF_BZ_SCATTER_EN : Field := ⟨109, 1⟩
def FRF_AZ_TCP_UDP : Field := ⟨108, 1⟩
def FRF_AZ_RXQ_ID : Field := ⟨96, 12⟩
def FRF_CZ_RMFT_RSS_EN : Field := ⟨75, 1⟩
def FRF_CZ_RMFT_SCATTER_EN : Field := ⟨74, 1⟩
def FRF_CZ_RMFT_RXQ_ID : Field := ⟨61, 12⟩
def FRF_CZ_RMFT_WILDCARD_MATCH : Field := ⟨60, 1⟩
def FRF_CZ_RMFT_DEST_MAC_DW1 : Field := ⟨44, 16⟩
def FRF_CZ_RMFT_DEST_MAC_DW0 : Field := ⟨12, 32⟩
def FRF_CZ_RMFT_VLAN_ID : Field := ⟨0, 12⟩
def FRF_CZ_TIFT_TCP_UDP : Field := ⟨108, 1⟩
def FRF_CZ_TIFT_TXQ_ID : Field := ⟨96, 12⟩
def FRF_CZ_TMFT_TXQ_ID : Field := ⟨61, 12⟩
def FRF_CZ_TMFT_WILDCARD_MATCH : Field := ⟨60, 1⟩
def FRF_CZ_TMFT_SRC_MAC_DW1 : Field := ⟨44, 16⟩
def FRF_CZ_TMFT_SRC_MAC_DW0 : Field := ⟨12, 32⟩
def FRF_CZ_TMFT_VLAN_ID : Field := ⟨0, 12⟩

def bit (b : Bool) : U32 := if b then 1 else 0

/-- Build a filter entry and return its n-tuple key. -/
def sienaFilterBuild (spec : SienaFilterSpec) : Oword × U32 :=
  let rss := bit (hasFlag spec.flags EFX_FILTER_FLAG_RX_RSS)
  let scatter := bit (hasFlag spec.flags EFX_FILTER_FLAG_RX_SCATTER)
  let (filter, dword3) :=
    match sienaFilterTblId spec.type with
    | RX_IP =>
      let isUdp := bit (spec.type = RX_UDP_FULL ∨ spec.type = RX_UDP_WILD)
      (populateOword
        [(FRF_BZ_RSS_EN, rss), (FRF_BZ_SCATTER_EN, scatter), (FRF_AZ_TCP_UDP, isUdp),
          (FRF_AZ_RXQ_ID, spec.dmaqId), (EFX_DWORD_2, spec.dword2), (EFX_DWORD_1, spec.dword1),
          (EFX_DWORD_0, spec.dword0)], isUdp)
    | RX_MAC =>
      let isWild := bit (spec.type = RX_MAC_WILD)
      (populateOword
        [(FRF_CZ_RMFT_RSS_EN, rss), (FRF_CZ_RMFT_SCATTER_EN, scatter),
          (FRF_CZ_RMFT_RXQ_ID, spec.dmaqId), (FRF_CZ_RMFT_WILDCARD_MATCH, isWild),
          (FRF_CZ_RMFT_DEST_MAC_DW1, spec.dword2), (FRF_CZ_RMFT_DEST_MAC_DW0, spec.dword1),
          (FRF_CZ_RMFT_VLAN_ID, spec.dword0)], isWild)
    | TX_IP =>
      let isUdp := bit (spec.type = TX_UDP_FULL ∨ spec.type = TX_UDP_WILD)
      (populateOword
        [(FRF_CZ_TIFT_TCP_UDP, isUdp), (FRF_CZ_TIFT_TXQ_ID, spec.dmaqId),
          (EFX_DWORD_2, spec.dword2), (EFX_DWORD_1, spec.dword1), (EFX_DWORD_0, spec.dword0)],
        isUdp ||| spec.dmaqId <<< 1)
    | TX_MAC =>
      let isWild := bit (spec.type = TX_MAC_WILD)
      (populateOword
        [(FRF_CZ_TMFT_TXQ_ID, spec.dmaqId), (FRF_CZ_TMFT_WILDCARD_MATCH, isWild),
          (FRF_CZ_TMFT_SRC_MAC_DW1, spec.dword2), (FRF_CZ_TMFT_SRC_MAC_DW0, spec.dword1),
          (FRF_CZ_TMFT_VLAN_ID, spec.dword0)],
        isWild ||| spec.dmaqId <<< 1)
  (filter, spec.dword0 ^^^ spec.dword1 ^^^ spec.dword2 ^^^ dword3)

/-! ### Tables -/

/-- `siena_filter_tbl_t` -/
structure SienaFilterTbl where
  size : ℕ
  used : ℤ
  bitmap : ℕ → U32
  spec : ℕ → SienaFilterSpec

/-- `siena_filter_t` -/
structure SienaFilter where
  tbl : SienaFilterTblId → SienaFilterTbl
  depth : SienaFilterType → ℕ

def FR_AZ_RX_FILTER_TBL0_ROWS : ℕ := 8192
def FR_CZ_RX_MAC_FILTER_TBL0_ROWS : ℕ := 512
def FR_CZ_TX_FILTER_TBL0_ROWS : ℕ := 8192
def FR_CZ_TX_MAC_FILTER_TBL0_ROWS : ℕ := 512

/-- The number of rows `siena_filter_init` gives each table. -/
def tblRows : SienaFilterTblId → ℕ
  | RX_IP => FR_AZ_RX_FILTER_TBL0_ROWS
  | RX_MAC => FR_CZ_RX_MAC_FILTER_TBL0_ROWS
  | TX_IP => FR_CZ_TX_FILTER_TBL0_ROWS
  | TX_MAC => FR_CZ_TX_MAC_FILTER_TBL0_ROWS

/-- `siena_filter_init` when its allocations, which are zeroed, succeed. -/
def sienaFilterInit : SienaFilter where
  tbl tblId := { size := tblRows tblId, used := 0, bitmap := fun _ => 0,
                 spec := fun _ => SienaFilterSpec.zero }
  depth _ := 0

/-- The filter hash function is LFSR polynomial x^16 + x^3 + 1 of a 32-bit key. -/
def sienaFilterTblHash (key : U32) : BitVec 16 :=
  -- first 16 rounds
  let tmp : BitVec 16 := 0x1fff ^^^ (key >>> 16).setWidth 16
  let tmp := tmp ^^^ tmp >>> 3 ^^^ tmp >>> 6
  let tmp := tmp ^^^ tmp >>> 9
  -- last 16 rounds
  let tmp := tmp ^^^ tmp <<< 13 ^^^ (key &&& 0xffff).setWidth 16
  let tmp := tmp ^^^ tmp >>> 3 ^^^ tmp >>> 6
  tmp ^^^ tmp >>> 9

def sienaFilterTblIncrement (key : U32) : BitVec 16 := (key * 2 - 1).setWidth 16

def sienaFilterTestUsed (sftp : SienaFilterTbl) (index : ℕ) : Bool :=
  sftp.bitmap (index / 32) &&& ((1 : U32) <<< (index % 32)) ≠ 0

def sienaFilterSetUsed (sftp : SienaFilterTbl) (index : ℕ) : SienaFilterTbl :=
  { sftp with
    bitmap := Function.update sftp.bitmap (index / 32)
      (sftp.bitmap (index / 32) ||| ((1 : U32) <<< (index % 32)))
    used := sftp.used + 1 }

def sienaFilterClearUsed (sftp : SienaFilterTbl) (index : ℕ) : SienaFilterTbl :=
  { sftp with
    bitmap := Function.update sftp.bitmap (index / 32)
      (sftp.bitmap (index / 32) &&& ~~~((1 : U32) <<< (index % 32)))
    used := sftp.used - 1 }

/-- `sftp->sft_spec[index] = spec` -/
def SienaFilterTbl.setSpec (sftp : SienaFilterTbl) (index : ℕ) (spec : SienaFilterSpec) :
    SienaFilterTbl :=
  { sftp with spec := Function.update sftp.spec index spec }

@[simp] theorem size_setUsed (sftp : SienaFilterTbl) (i : ℕ) :
    (sienaFilterSetUsed sftp i).size = sftp.size := rfl

@[simp] theorem spec_setUsed (sftp : SienaFilterTbl) (i : ℕ) :
    (sienaFilterSetUsed sftp i).spec = sftp.spec := rfl

@[simp] theorem size_clearUsed (sftp : SienaFilterTbl) (i : ℕ) :
    (sienaFilterClearUsed sftp i).size = sftp.size := rfl

@[simp] theorem spec_clearUsed (sftp : SienaFilterTbl) (i : ℕ) :
    (sienaFilterClearUsed sftp i).spec = sftp.spec := rfl

@[simp] theorem size_setSpec (sftp : SienaFilterTbl) (i : ℕ) (spec : SienaFilterSpec) :
    (sftp.setSpec i spec).size = sftp.size := rfl

@[simp] theorem spec_setSpec (sftp : SienaFilterTbl) (i : ℕ) (spec : SienaFilterSpec) :
    (sftp.setSpec i spec).spec = Function.update sftp.spec i spec := rfl

@[simp] theorem testUsed_setSpec (sftp : SienaFilterTbl) (i j : ℕ) (spec : SienaFilterSpec) :
    sienaFilterTestUsed (sftp.setSpec i spec) j = sienaFilterTestUsed sftp j := rfl

def sienaFilterResetSearchDepth (sfp : SienaFilter) (tblId : SienaFilterTblId) : SienaFilter :=
  { sfp with depth := fun type => if sienaFilterTblId type = tblId then 0 else sfp.depth type }

def sienaFilterEqual (left right : SienaFilterSpec) : Bool :=
  let tblId := sienaFilterTblId left.type
  if left.type ≠ right.type then false
  else if left.dword0 ≠ right.dword0 ∨ left.dword1 ≠ right.dword1 ∨ left.dword2 ≠ right.dword2 then
    false
  else if (tblId = TX_IP ∨ tblId = TX_MAC) ∧ left.dmaqId ≠ right.dmaqId then false
  else true

def FILTER_CTL_SRCH_MAX : ℕ := 200

/-- The search loop at `filterIdx` and `depth`, with `left` more probes before the maximum. -/
def sienaFilterProbe (sftp : SienaFilterTbl) (spec : SienaFilterSpec) (forInsert : Bool)
    (incr : ℕ) : (left filterIdx depth : ℕ) → Except Errno (ℕ × ℕ)
  | left, filterIdx, depth =>
    -- success if entry is used and matches, or is unused and we are trying to insert
    if (if sienaFilterTestUsed sftp filterIdx then sienaFilterEqual spec (sftp.spec filterIdx)
        else forInsert) then
      .ok (filterIdx, depth)
    else
      match left with
      | 0 => .error (if forInsert then EBUSY else ENOENT)
      | left + 1 =>
        sienaFilterProbe sftp spec forInsert incr left ((filterIdx + incr) &&& (sftp.size - 1))
          (depth + 1)

def sienaFilterSearch (sftp : SienaFilterTbl) (spec : SienaFilterSpec) (key : U32)
    (forInsert : Bool) : Except Errno (ℕ × ℕ) :=
  sienaFilterProbe sftp spec forInsert (sienaFilterTblIncrement key).toNat (FILTER_CTL_SRCH_MAX - 1)
    ((sienaFilterTblHash key).toNat &&& (sftp.size - 1)) 1

/-! ### Hardware -/

/-- `FR_*_OFST` and `FR_*_STEP` of the four filter tables. -/
def tblOfst : SienaFilterTblId → ℕ
  | RX_IP => 0x00f00000
  | RX_MAC => 0x00f00010
  | TX_IP => 0x00fc0000
  | TX_MAC => 0x00fe0000

def tblStep : SienaFilterTblId → ℕ
  | RX_IP | RX_MAC => 32
  | TX_IP | TX_MAC => 16

/-- The BAR offset of a row. -/
def rowOfst (tblId : SienaFilterTblId) (index : ℕ) : ℕ := tblOfst tblId + index * tblStep tblId

def FR_AZ_RX_FILTER_CTL_REG : ℕ := 0x00000810
def FR_AZ_TX_CFG_REG : ℕ := 0x00000a50

def FILTER_CTL_SRCH_FUDGE_WILD : ℕ := 3
def FILTER_CTL_SRCH_FUDGE_FULL : ℕ := 1

def FRF_AZ_TCP_FULL_SRCH_LIMIT : Field := ⟨0, 8⟩
def FRF_AZ_TCP_WILD_SRCH_LIMIT : Field := ⟨8, 8⟩
def FRF_AZ_UDP_FULL_SRCH_LIMIT : Field := ⟨32, 8⟩
def FRF_AZ_UDP_WILD_SRCH_LIMIT : Field := ⟨16, 8⟩
def FRF_CZ_ETHERNET_FULL_SEARCH_LIMIT : Field := ⟨86, 8⟩
def FRF_CZ_ETHERNET_WILDCARD_SEARCH_LIMIT : Field := ⟨94, 8⟩
def FRF_CZ_TX_TCPIP_FILTER_FULL_SEARCH_RANGE : Field := ⟨65, 8⟩
def FRF_CZ_TX_TCPIP_FILTER_WILD_SEARCH_RANGE : Field := ⟨73, 8⟩
def FRF_CZ_TX_UDPIP_FILTER_FULL_SEARCH_RANGE : Field := ⟨81, 8⟩
def FRF_CZ_TX_UDPIP_FILTER_WILD_SEARCH_RANGE : Field := ⟨89, 8⟩
def FRF_CZ_TX_ETH_FILTER_FULL_SEARCH_RANGE : Field := ⟨97, 8⟩
def FRF_CZ_TX_ETH_FILTER_WILD_SEARCH_RANGE : Field := ⟨105, 8⟩

variable {ε : Type}

def sienaFilterPushRxLimits (sfp : SienaFilter) : Prog Bar ε Unit := do
  let limit (type : SienaFilterType) (fudge : ℕ) : U32 := BitVec.ofNat 32 (sfp.depth type + fudge)
  let oword ← barReado FR_AZ_RX_FILTER_CTL_REG
  let oword := setOwordField oword FRF_AZ_TCP_FULL_SRCH_LIMIT
    (limit RX_TCP_FULL FILTER_CTL_SRCH_FUDGE_FULL)
  let oword := setOwordField oword FRF_AZ_TCP_WILD_SRCH_LIMIT
    (limit RX_TCP_WILD FILTER_CTL_SRCH_FUDGE_WILD)
  let oword := setOwordField oword FRF_AZ_UDP_FULL_SRCH_LIMIT
    (limit RX_UDP_FULL FILTER_CTL_SRCH_FUDGE_FULL)
  let oword := setOwordField oword FRF_AZ_UDP_WILD_SRCH_LIMIT
    (limit RX_UDP_WILD FILTER_CTL_SRCH_FUDGE_WILD)
  let oword :=
    if (sfp.tbl RX_MAC).size ≠ 0 then
      let oword := setOwordField oword FRF_CZ_ETHERNET_FULL_SEARCH_LIMIT
        (limit RX_MAC_FULL FILTER_CTL_SRCH_FUDGE_FULL)
      setOwordField oword FRF_CZ_ETHERNET_WILDCARD_SEARCH_LIMIT
        (limit RX_MAC_WILD FILTER_CTL_SRCH_FUDGE_WILD)
    else oword
  barWriteo FR_AZ_RX_FILTER_CTL_REG oword

def sienaFilterPushTxLimits (sfp : SienaFilter) : Prog Bar ε Unit := do
  let limit (type : SienaFilterType) (fudge : ℕ) : U32 := BitVec.ofNat 32 (sfp.depth type + fudge)
  let oword ← barReado FR_AZ_TX_CFG_REG
  let oword :=
    if (sfp.tbl TX_IP).size ≠ 0 then
      let oword := setOwordField oword FRF_CZ_TX_TCPIP_FILTER_FULL_SEARCH_RANGE
        (limit TX_TCP_FULL FILTER_CTL_SRCH_FUDGE_FULL)
      let oword := setOwordField oword FRF_CZ_TX_TCPIP_FILTER_WILD_SEARCH_RANGE
        (limit TX_TCP_WILD FILTER_CTL_SRCH_FUDGE_WILD)
      let oword := setOwordField oword FRF_CZ_TX_UDPIP_FILTER_FULL_SEARCH_RANGE
        (limit TX_UDP_FULL FILTER_CTL_SRCH_FUDGE_FULL)
      setOwordField oword FRF_CZ_TX_UDPIP_FILTER_WILD_SEARCH_RANGE
        (limit TX_UDP_WILD FILTER_CTL_SRCH_FUDGE_WILD)
    else oword
  let oword :=
    if (sfp.tbl TX_MAC).size ≠ 0 then
      let oword := setOwordField oword FRF_CZ_TX_ETH_FILTER_FULL_SEARCH_RANGE
        (limit TX_MAC_FULL FILTER_CTL_SRCH_FUDGE_FULL)
      setOwordField oword FRF_CZ_TX_ETH_FILTER_WILD_SEARCH_RANGE
        (limit TX_MAC_WILD FILTER_CTL_SRCH_FUDGE_WILD)
    else oword
  barWriteo FR_AZ_TX_CFG_REG oword

/-- Every type has its own table of rows; pushing an entry always returns 0. -/
def sienaFilterPushEntry (type : SienaFilterType) (index : ℕ) (eop : Oword) : Prog Bar ε Unit :=
  barWriteo (rowOfst (sienaFilterTblId type) index) eop

/-! ### Operations -/

/-- The filter part of a NIC: the software tables and the hardware. -/
structure Nic where
  filter : SienaFilter
  bar : Bar

def onBar {α : Type} (p : Prog Bar ε α) : Prog Nic ε α :=
  zoom Nic.bar (fun nic bar => { nic with bar }) p

def SienaFilter.setTbl (sfp : SienaFilter) (tblId : SienaFilterTblId) (sftp : SienaFilterTbl) :
    SienaFilter :=
  { sfp with tbl := Function.update sfp.tbl tblId sftp }

def putFilter (sfp : SienaFilter) : Prog Nic ε Unit := fun nic => .ret () { nic with filter := sfp }

def sienaFilterClearEntry (tblId : SienaFilterTblId) (index : ℕ) : Prog Nic ε Unit := do
  let sfp := (← get).filter
  let sftp := sfp.tbl tblId
  if sienaFilterTestUsed sftp index then
    let sftp' := sienaFilterClearUsed sftp index
    onBar (sienaFilterPushEntry (sftp.spec index).type index Oword.zero)
    putFilter (sfp.setTbl tblId (sftp'.setSpec index SienaFilterSpec.zero))

/-- `if (sftp->sft_used == 0) siena_filter_reset_search_depth(sfp, tbl_id);` -/
def resetIfEmpty (tblId : SienaFilterTblId) : Prog Nic ε Unit := do
  let sfp := (← get).filter
  if (sfp.tbl tblId).used = 0 then
    putFilter (sienaFilterResetSearchDepth sfp tblId)

def sienaFilterTblClear (tblId : SienaFilterTblId) : Prog Nic ε Unit := do
  let size := ((← get).filter.tbl tblId).size
  forEach (sienaFilterClearEntry tblId) (List.range size)
  resetIfEmpty tblId

/-- The part of `siena_filter_add` behind its checks. -/
def sienaFilterInstall (sfSpec : SienaFilterSpec) (filter : Oword) (filterIdx depth : ℕ) :
    Prog Nic ε Unit := do
  let tblId := sienaFilterTblId sfSpec.type
  let sfp := (← get).filter
  let sftp := sienaFilterSetUsed (sfp.tbl tblId) filterIdx
  let sfp := sfp.setTbl tblId (sftp.setSpec filterIdx sfSpec)
  putFilter sfp
  if sfp.depth sfSpec.type < depth then
    let sfp := { sfp with depth := Function.update sfp.depth sfSpec.type depth }
    putFilter sfp
    if tblId = TX_IP ∨ tblId = TX_MAC then
      onBar (sienaFilterPushTxLimits sfp)
    else
      onBar (sienaFilterPushRxLimits sfp)
  onBar (sienaFilterPushEntry sfSpec.type filterIdx filter)

def sienaFilterAdd (spec : EfxFilterSpec) (mayReplace : Bool) : Prog Nic Errno Unit := do
  match sienaFilterSpecFromGenSpec spec with
  | .error rc => fail rc
  | .ok sfSpec =>
    let sftp := (← get).filter.tbl (sienaFilterTblId sfSpec.type)
    ensure (sftp.size ≠ 0) EINVAL
    let (filter, key) := sienaFilterBuild sfSpec
    match sienaFilterSearch sftp sfSpec key true with
    | .error rc => fail rc
    | .ok (filterIdx, depth) =>
      ensure (¬ (sienaFilterTestUsed sftp filterIdx ∧ mayReplace = false)) EEXIST
      sienaFilterInstall sfSpec filter filterIdx depth

def sienaFilterDelete (spec : EfxFilterSpec) : Prog Nic Errno Unit := do
  match sienaFilterSpecFromGenSpec spec with
  | .error rc => fail rc
  | .ok sfSpec =>
    let tblId := sienaFilterTblId sfSpec.type
    let sftp := (← get).filter.tbl tblId
    let (_, key) := sienaFilterBuild sfSpec
    match sienaFilterSearch sftp sfSpec key false with
    | .error rc => fail rc
    | .ok (filterIdx, _) =>
      sienaFilterClearEntry tblId filterIdx
      resetIfEmpty tblId

def allTbls : List SienaFilterTblId := [RX_IP, RX_MAC, TX_IP, TX_MAC]

/-- One entry of the restore loop.  The return code is a number: the key that
`siena_filter_build` returns is taken for one. -/
def sienaFilterRestoreEntry (sftp : SienaFilterTbl) (filterIdx : ℕ) : Prog Bar U32 Unit := do
  if sienaFilterTestUsed sftp filterIdx then
    let spec := sftp.spec filterIdx
    let (filter, rc) := sienaFilterBuild spec
    ensure (rc = 0) rc
    sienaFilterPushEntry spec.type filterIdx filter

/-- Restore filter state after a reset. -/
def sienaFilterRestore (sfp : SienaFilter) : Prog Bar U32 Unit := do
  forEach (fun tblId =>
    forEach (sienaFilterRestoreEntry (sfp.tbl tblId)) (List.range (sfp.tbl tblId).size)) allTbls
  sienaFilterPushRxLimits sfp
  sienaFilterPushTxLimits sfp

end Sfxge.Filter
