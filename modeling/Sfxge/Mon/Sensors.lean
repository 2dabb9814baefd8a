import Sfxge.Efx
import Sfxge.Oword

/-!
# Mon.Sensors — the sensors of the management controller

`mcdi_mon_decode_stats` and `mcdi_mon_ev`, with the map from sensors to monitor statistics.  Assertions are not built
in.
-/

namespace Sfxge.Mon

open Errno

/-- `efx_mon_stat_t` -/
inductive MonStat where
  | EFX_MON_STAT_2_5V
  | EFX_MON_STAT_VCCP1
  | EFX_MON_STAT_VCC
  | EFX_MON_STAT_5V
  | EFX_MON_STAT_12V
  | EFX_MON_STAT_VCCP2
  | EFX_MON_STAT_EXT_TEMP
  | EFX_MON_STAT_INT_TEMP
  | EFX_MON_STAT_AIN1
  | EFX_MON_STAT_AIN2
  | EFX_MON_STAT_INT_COOLING
  | EFX_MON_STAT_EXT_COOLING
  | EFX_MON_STAT_1V
  | EFX_MON_STAT_1_2V
  | EFX_MON_STAT_1_8V
  | EFX_MON_STAT_3_3V
  | EFX_MON_STAT_1_2VA
  | EFX_MON_STAT_VREF
  | EFX_MON_STAT_VAOE
  | EFX_MON_STAT_AOE_TEMP
  | EFX_MON_STAT_PSU_AOE_TEMP
  | EFX_MON_STAT_PSU_TEMP
  | EFX_MON_STAT_FAN0
  | EFX_MON_STAT_FAN1
  | EFX_MON_STAT_FAN2
  | EFX_MON_STAT_FAN3
  | EFX_MON_STAT_FAN4
  | EFX_MON_STAT_VAOE_IN
  | EFX_MON_STAT_IAOE
  | EFX_MON_STAT_IAOE_IN
  | EFX_MON_STAT_NIC_POWER
  | EFX_MON_STAT_0_9V
  | EFX_MON_STAT_I0_9V
  | EFX_MON_STAT_I1_2V
  | EFX_MON_STAT_0_9V_ADC
  | EFX_MON_STAT_INT_TEMP2
  | EFX_MON_STAT_VREG_TEMP
  | EFX_MON_STAT_VREG_0_9V_TEMP
  | EFX_MON_STAT_VREG_1_2V_TEMP
  | EFX_MON_STAT_INT_VPTAT
  | EFX_MON_STAT_INT_ADC_TEMP
  | EFX_MON_STAT_EXT_VPTAT
  | EFX_MON_STAT_EXT_ADC_TEMP
  | EFX_MON_STAT_AMBIENT_TEMP
  | EFX_MON_STAT_AIRFLOW
  | EFX_MON_STAT_VDD08D_VSS08D_CSR
  | EFX_MON_STAT_VDD08D_VSS08D_CSR_EXTADC
  | EFX_MON_STAT_HOTPOINT_TEMP
  | EFX_MON_STAT_PHY_POWER_SWITCH_PORT0
  | EFX_MON_STAT_PHY_POWER_SWITCH_PORT1
  | EFX_MON_STAT_MUM_VCC
  | EFX_MON_STAT_0V9_A
  | EFX_MON_STAT_I0V9_A
  | EFX_MON_STAT_0V9_A_TEMP
  | EFX_MON_STAT_0V9_B
  | EFX_MON_STAT_I0V9_B
  | EFX_MON_STAT_0V9_B_TEMP
  | EFX_MON_STAT_CCOM_AVREG_1V2_SUPPLY
  | EFX_MON_STAT_CCOM_AVREG_1V2_SUPPLY_EXT_ADC
  | EFX_MON_STAT_CCOM_AVREG_1V8_SUPPLY
  | EFX_MON_STAT_CCOM_AVREG_1V8_SUPPLY_EXT_ADC
  | EFX_MON_STAT_CONTROLLER_MASTER_VPTAT
  | EFX_MON_STAT_CONTROLLER_MASTER_INTERNAL_TEMP
  | EFX_MON_STAT_CONTROLLER_MASTER_VPTAT_EXT_ADC
  | EFX_MON_STAT_CONTROLLER_MASTER_INTERNAL_TEMP_EXT_ADC
  | EFX_MON_STAT_CONTROLLER_SLAVE_VPTAT
  | EFX_MON_STAT_CONTROLLER_SLAVE_INTERNAL_TEMP
  | EFX_MON_STAT_CONTROLLER_SLAVE_VPTAT_EXT_ADC
  | EFX_MON_STAT_CONTROLLER_SLAVE_INTERNAL_TEMP_EXT_ADC
  | EFX_MON_STAT_SODIMM_VOUT
  | EFX_MON_STAT_SODIMM_0_TEMP
  | EFX_MON_STAT_SODIMM_1_TEMP
  | EFX_MON_STAT_PHY0_VCC
  | EFX_MON_STAT_PHY1_VCC
  | EFX_MON_STAT_CONTROLLER_TDIODE_TEMP
  | EFX_MON_STAT_BOARD_FRONT_TEMP
  | EFX_MON_STAT_BOARD_BACK_TEMP
  deriving DecidableEq

def EFX_MON_NSTATS : ℕ := 77
def EFX_MON_MASK_ELEMENT_SIZE : ℕ := 32
def MCDI_MON_NEXT_PAGE : ℕ := 0xfffe
def MCDI_MON_INVALID_SENSOR : ℕ := 0xfffd
def MCDI_MON_PAGE_SIZE : ℕ := 0x20
def MC_CMD_SENSOR_PAGE0_NEXT : ℕ := 0x1f

def MCDI_MON_PORT_NONE : U32 := 0x00
def MCDI_MON_PORT_P1 : U32 := 0x01
def MCDI_MON_PORT_P2 : U32 := 0x02
def MCDI_MON_PORT_Px : U32 := 0xffff

/-- `struct mcdi_sensor_map_s` -/
structure McdiSensorMap where
  msmPortMask : U32
  msmStat : ℕ

def STAT (portmask : U32) (stat : MonStat) : McdiSensorMap := ⟨portmask, stat.ctorIdx⟩
def STAT_NEXT_PAGE : McdiSensorMap := ⟨MCDI_MON_PORT_NONE, MCDI_MON_NEXT_PAGE⟩
def STAT_NO_SENSOR : McdiSensorMap := ⟨MCDI_MON_PORT_NONE, MCDI_MON_INVALID_SENSOR⟩

/-- Sensor page 0. -/
def sensorPage0 : List McdiSensorMap :=
  [STAT MCDI_MON_PORT_Px .EFX_MON_STAT_INT_TEMP, STAT MCDI_MON_PORT_Px .EFX_MON_STAT_EXT_TEMP,
    STAT MCDI_MON_PORT_Px .EFX_MON_STAT_INT_COOLING, STAT MCDI_MON_PORT_P1 .EFX_MON_STAT_EXT_TEMP,
    STAT MCDI_MON_PORT_P1 .EFX_MON_STAT_EXT_COOLING, STAT MCDI_MON_PORT_P2 .EFX_MON_STAT_EXT_TEMP,
    STAT MCDI_MON_PORT_P2 .EFX_MON_STAT_EXT_COOLING, STAT MCDI_MON_PORT_Px .EFX_MON_STAT_1V,
    STAT MCDI_MON_PORT_Px .EFX_MON_STAT_1_2V, STAT MCDI_MON_PORT_Px .EFX_MON_STAT_1_8V,
    STAT MCDI_MON_PORT_Px .EFX_MON_STAT_2_5V, STAT MCDI_MON_PORT_Px .EFX_MON_STAT_3_3V,
    STAT MCDI_MON_PORT_Px .EFX_MON_STAT_12V, STAT MCDI_MON_PORT_Px .EFX_MON_STAT_1_2VA,
    STAT MCDI_MON_PORT_Px .EFX_MON_STAT_VREF, STAT MCDI_MON_PORT_Px .EFX_MON_STAT_VAOE,
    STAT MCDI_MON_PORT_Px .EFX_MON_STAT_AOE_TEMP, STAT MCDI_MON_PORT_Px .EFX_MON_STAT_PSU_AOE_TEMP,
    STAT MCDI_MON_PORT_Px .EFX_MON_STAT_PSU_TEMP, STAT MCDI_MON_PORT_Px .EFX_MON_STAT_FAN0,
    STAT MCDI_MON_PORT_Px .EFX_MON_STAT_FAN1, STAT MCDI_MON_PORT_Px .EFX_MON_STAT_FAN2,
    STAT MCDI_MON_PORT_Px .EFX_MON_STAT_FAN3, STAT MCDI_MON_PORT_Px .EFX_MON_STAT_FAN4,
    STAT MCDI_MON_PORT_Px .EFX_MON_STAT_VAOE_IN, STAT MCDI_MON_PORT_Px .EFX_MON_STAT_IAOE,
    STAT MCDI_MON_PORT_Px .EFX_MON_STAT_IAOE_IN, STAT MCDI_MON_PORT_Px .EFX_MON_STAT_NIC_POWER,
    STAT MCDI_MON_PORT_Px .EFX_MON_STAT_0_9V, STAT MCDI_MON_PORT_Px .EFX_MON_STAT_I0_9V,
    STAT MCDI_MON_PORT_Px .EFX_MON_STAT_I1_2V, STAT_NEXT_PAGE]

/-- Sensor page 1. -/
def sensorPage1 : List McdiSensorMap :=
  [STAT MCDI_MON_PORT_Px .EFX_MON_STAT_0_9V_ADC, STAT MCDI_MON_PORT_Px .EFX_MON_STAT_INT_TEMP2,
    STAT MCDI_MON_PORT_Px .EFX_MON_STAT_VREG_TEMP, STAT MCDI_MON_PORT_Px .EFX_MON_STAT_VREG_0_9V_TEMP,
    STAT MCDI_MON_PORT_Px .EFX_MON_STAT_VREG_1_2V_TEMP, STAT MCDI_MON_PORT_Px .EFX_MON_STAT_INT_VPTAT,
    STAT MCDI_MON_PORT_Px .EFX_MON_STAT_INT_ADC_TEMP, STAT MCDI_MON_PORT_Px .EFX_MON_STAT_EXT_VPTAT,
    STAT MCDI_MON_PORT_Px .EFX_MON_STAT_EXT_ADC_TEMP, STAT MCDI_MON_PORT_Px .EFX_MON_STAT_AMBIENT_TEMP,
    STAT MCDI_MON_PORT_Px .EFX_MON_STAT_AIRFLOW, STAT MCDI_MON_PORT_Px .EFX_MON_STAT_VDD08D_VSS08D_CSR,
    STAT MCDI_MON_PORT_Px .EFX_MON_STAT_VDD08D_VSS08D_CSR_EXTADC, STAT MCDI_MON_PORT_Px .EFX_MON_STAT_HOTPOINT_TEMP,
    STAT MCDI_MON_PORT_P1 .EFX_MON_STAT_PHY_POWER_SWITCH_PORT0,
    STAT MCDI_MON_PORT_P2 .EFX_MON_STAT_PHY_POWER_SWITCH_PORT1, STAT MCDI_MON_PORT_Px .EFX_MON_STAT_MUM_VCC,
    STAT MCDI_MON_PORT_Px .EFX_MON_STAT_0V9_A, STAT MCDI_MON_PORT_Px .EFX_MON_STAT_I0V9_A,
    STAT MCDI_MON_PORT_Px .EFX_MON_STAT_0V9_A_TEMP, STAT MCDI_MON_PORT_Px .EFX_MON_STAT_0V9_B,
    STAT MCDI_MON_PORT_Px .EFX_MON_STAT_I0V9_B, STAT MCDI_MON_PORT_Px .EFX_MON_STAT_0V9_B_TEMP,
    STAT MCDI_MON_PORT_Px .EFX_MON_STAT_CCOM_AVREG_1V2_SUPPLY,
    STAT MCDI_MON_PORT_Px .EFX_MON_STAT_CCOM_AVREG_1V2_SUPPLY_EXT_ADC,
    STAT MCDI_MON_PORT_Px .EFX_MON_STAT_CCOM_AVREG_1V8_SUPPLY,
    STAT MCDI_MON_PORT_Px .EFX_MON_STAT_CCOM_AVREG_1V8_SUPPLY_EXT_ADC, STAT_NO_SENSOR, STAT_NO_SENSOR, STAT_NO_SENSOR,
    STAT_NO_SENSOR, STAT_NEXT_PAGE]

/-- Sensor page 2. -/
def sensorPage2 : List McdiSensorMap :=
  [STAT MCDI_MON_PORT_Px .EFX_MON_STAT_CONTROLLER_MASTER_VPTAT,
    STAT MCDI_MON_PORT_Px .EFX_MON_STAT_CONTROLLER_MASTER_INTERNAL_TEMP,
    STAT MCDI_MON_PORT_Px .EFX_MON_STAT_CONTROLLER_MASTER_VPTAT_EXT_ADC,
    STAT MCDI_MON_PORT_Px .EFX_MON_STAT_CONTROLLER_MASTER_INTERNAL_TEMP_EXT_ADC,
    STAT MCDI_MON_PORT_Px .EFX_MON_STAT_CONTROLLER_SLAVE_VPTAT,
    STAT MCDI_MON_PORT_Px .EFX_MON_STAT_CONTROLLER_SLAVE_INTERNAL_TEMP,
    STAT MCDI_MON_PORT_Px .EFX_MON_STAT_CONTROLLER_SLAVE_VPTAT_EXT_ADC,
    STAT MCDI_MON_PORT_Px .EFX_MON_STAT_CONTROLLER_SLAVE_INTERNAL_TEMP_EXT_ADC, STAT_NO_SENSOR,
    STAT MCDI_MON_PORT_Px .EFX_MON_STAT_SODIMM_VOUT, STAT MCDI_MON_PORT_Px .EFX_MON_STAT_SODIMM_0_TEMP,
    STAT MCDI_MON_PORT_Px .EFX_MON_STAT_SODIMM_1_TEMP, STAT MCDI_MON_PORT_Px .EFX_MON_STAT_PHY0_VCC,
    STAT MCDI_MON_PORT_Px .EFX_MON_STAT_PHY1_VCC, STAT MCDI_MON_PORT_Px .EFX_MON_STAT_CONTROLLER_TDIODE_TEMP,
    STAT MCDI_MON_PORT_Px .EFX_MON_STAT_BOARD_FRONT_TEMP, STAT MCDI_MON_PORT_Px .EFX_MON_STAT_BOARD_BACK_TEMP]

/-- `mcdi_sensor_map` -/
def mcdiSensorMap : List McdiSensorMap := sensorPage0 ++ sensorPage1 ++ sensorPage2

/-- `mcdi_sensor_map[sensor]` -/
def sensorMap (sensor : ℕ) : McdiSensorMap := mcdiSensorMap.getD sensor STAT_NO_SENSOR

/-- `efx_mon_stat_value_t` -/
structure MonStatValue where
  emsvValue : BitVec 16
  emsvState : BitVec 16
  deriving DecidableEq

/-- What `1U << n` gives; C leaves it undefined for `n` of 32 and more. -/
structure OneShl where
  run : ℕ → Option U32
  low : ∀ n < 32, run n = some ((1 : U32) <<< n)

/-- A shift that C leaves undefined goes wrong. -/
def OneShl.defined : OneShl where
  run n := if n < 32 then some ((1 : U32) <<< n) else none
  low _ h := if_pos h

/-- A machine that takes the count modulo 32. -/
def OneShl.modulo : OneShl where
  run n := some ((1 : U32) <<< (n % 32))
  low n h := by rw [Nat.mod_eq_of_lt h]

/-! ### The statistics -/

def MC_CMD_SENSOR_VALUE_ENTRY_TYPEDEF_VALUE : Field := ⟨0, 16⟩
def MC_CMD_SENSOR_VALUE_ENTRY_TYPEDEF_STATE : Field := ⟨16, 8⟩

/-- The locals of `mcdi_mon_decode_stats`, and the array of statistics. -/
structure Decode where
  page : ℕ
  idx : ℕ
  statMask : List U32
  stat : ℕ → MonStatValue

/-- The value of an entry of the packed array of readings. -/
def monStatValue (dword : U32) : MonStatValue :=
  ⟨(dwordField dword MC_CMD_SENSOR_VALUE_ENTRY_TYPEDEF_VALUE).setWidth 16,
    (dwordField dword MC_CMD_SENSOR_VALUE_ENTRY_TYPEDEF_STATE).setWidth 16⟩

/-- The bit of a statistic is set in the mask. -/
def setStat (statMask : List U32) (id : ℕ) : List U32 :=
  statMask.modify (id / EFX_MON_MASK_ELEMENT_SIZE) (· ||| (1 : U32) <<< (id % EFX_MON_MASK_ELEMENT_SIZE))

variable (shl : OneShl) (sensorMask : List U32) (esmp : Option (ℕ → U32))

/-- A round of the loop; the readings are there when there is a buffer and an array of statistics. -/
def decodeSensor (portMask : U32) (d : Decode) (sensor : ℕ) : Option Decode :=
  let m := sensorMap sensor
  let id := m.msmStat
  if sensor % MCDI_MON_PAGE_SIZE = MC_CMD_SENSOR_PAGE0_NEXT then some { d with page := d.page + 1 }
  else do
    let word ← sensorMask[d.page]?
    let bit ← shl.run sensor
    if ~~~word &&& bit ≠ 0 then some d
    else
      let d := { d with idx := d.idx + 1 }
      if portMask &&& m.msmPortMask = 0 then some d
      else
        let d := { d with statMask := setStat d.statMask id }
        match esmp with
        | none => some d
        | some reading =>
          some { d with stat := Function.update d.stat id (monStatValue (reading (d.idx - 1))) }

/-- `mcdi_mon_decode_stats`, with the mask of statistics and the statistics that it leaves. -/
def mcdiMonDecodeStats (emiPort : ℕ) (stat : ℕ → MonStatValue) : Option (List U32 × (ℕ → MonStatValue)) := do
  let sensorMax := min (8 * (4 * sensorMask.length)) mcdiSensorMap.length
  let portMask ← shl.run emiPort
  -- the mask is of 16 bits
  let d ← (List.range sensorMax).foldlM (decodeSensor shl sensorMask esmp (portMask &&& 0xffff))
    ⟨0, 0, List.replicate ((mcdiSensorMap.length + 31) / 32) 0, stat⟩
  some (d.statMask, d.stat)

/-! ### The events -/

def MCDI_EVENT_SENSOREVT_MONITOR : Field := ⟨0, 8⟩
def MCDI_EVENT_SENSOREVT_STATE : Field := ⟨8, 8⟩
def MCDI_EVENT_SENSOREVT_VALUE : Field := ⟨16, 16⟩

/-- `mcdi_mon_ev` -/
def mcdiMonEv (emiPort : ℕ) (eqp : Qword) : Except Errno (ℕ × MonStatValue) :=
  let portMask := if emiPort = 1 then MCDI_MON_PORT_P1 else MCDI_MON_PORT_P2
  let sensor := (eqp.field MCDI_EVENT_SENSOREVT_MONITOR).toNat
  let state := (eqp.field MCDI_EVENT_SENSOREVT_STATE).setWidth 16
  let value := (eqp.field MCDI_EVENT_SENSOREVT_VALUE).setWidth 16
  -- the sensor need not be known
  if mcdiSensorMap.length ≤ sensor then .error ENOTSUP
  else
    let m := sensorMap sensor
    if portMask &&& m.msmPortMask = 0 then .error ENODEV
    else .ok (m.msmStat, ⟨value, state⟩)

/-! ### The map -/

theorem mcdiSensorMap_length : mcdiSensorMap.length = 81 := rfl

/-- The next page flags of the map are where the pages end. -/
theorem sensorMap_next_iff : ∀ s < 81, (sensorMap s).msmStat = MCDI_MON_NEXT_PAGE ↔
    s % MCDI_MON_PAGE_SIZE = MC_CMD_SENSOR_PAGE0_NEXT := by
  decide

/-- A sensor of some port has a statistic. -/
theorem sensorMap_stat_lt : ∀ s < 81, (sensorMap s).msmPortMask ≠ 0 → (sensorMap s).msmStat < EFX_MON_NSTATS := by
  decide

/-- A sensor is of no port, of the first, of the second or of all. -/
theorem sensorMap_ports : ∀ s < 81, (sensorMap s).msmPortMask ∈
    [MCDI_MON_PORT_NONE, MCDI_MON_PORT_P1, MCDI_MON_PORT_P2, MCDI_MON_PORT_Px] := by
  decide

end Sfxge.Mon
