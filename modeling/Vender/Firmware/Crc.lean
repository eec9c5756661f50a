import Mathlib.Logic.Function.Iterate
import Mathlib.Tactic.Common

namespace Vender.Firmware

/-- One turn of the loop of `crc8_p93_reference`. -/
def crcTurn (poly crc : UInt8) : UInt8 :=
  if crc &&& 0x80 ≠ 0 then crc <<< 1 ^^^ poly else crc <<< 1

def crcPoly93 : UInt8 := 0x93

def crc8P93Reference (init data : UInt8) : UInt8 := (crcTurn crcPoly93)^[8] (init ^^^ data)

def lookup : List UInt8 :=
  [ 0x00, 0x93, 0xb5, 0x26, 0xf9, 0x6a, 0x4c, 0xdf, 0x61, 0xf2, 0xd4, 0x47,
    0x98, 0x0b, 0x2d, 0xbe, 0xc2, 0x51, 0x77, 0xe4, 0x3b, 0xa8, 0x8e, 0x1d,
    0xa3, 0x30, 0x16, 0x85, 0x5a, 0xc9, 0xef, 0x7c, 0x17, 0x84, 0xa2, 0x31,
    0xee, 0x7d, 0x5b, 0xc8, 0x76, 0xe5, 0xc3, 0x50, 0x8f, 0x1c, 0x3a, 0xa9,
    0xd5, 0x46, 0x60, 0xf3, 0x2c, 0xbf, 0x99, 0x0a, 0xb4, 0x27, 0x01, 0x92,
    0x4d, 0xde, 0xf8, 0x6b, 0x2e, 0xbd, 0x9b, 0x08, 0xd7, 0x44, 0x62, 0xf1,
    0x4f, 0xdc, 0xfa, 0x69, 0xb6, 0x25, 0x03, 0x90, 0xec, 0x7f, 0x59, 0xca,
    0x15, 0x86, 0xa0, 0x33, 0x8d, 0x1e, 0x38, 0xab, 0x74, 0xe7, 0xc1, 0x52,
    0x39, 0xaa, 0x8c, 0x1f, 0xc0, 0x53, 0x75, 0xe6, 0x58, 0xcb, 0xed, 0x7e,
    0xa1, 0x32, 0x14, 0x87, 0xfb, 0x68, 0x4e, 0xdd, 0x02, 0x91, 0xb7, 0x24,
    0x9a, 0x09, 0x2f, 0xbc, 0x63, 0xf0, 0xd6, 0x45, 0x5c, 0xcf, 0xe9, 0x7a,
    0xa5, 0x36, 0x10, 0x83, 0x3d, 0xae, 0x88, 0x1b, 0xc4, 0x57, 0x71, 0xe2,
    0x9e, 0x0d, 0x2b, 0xb8, 0x67, 0xf4, 0xd2, 0x41, 0xff, 0x6c, 0x4a, 0xd9,
    0x06, 0x95, 0xb3, 0x20, 0x4b, 0xd8, 0xfe, 0x6d, 0xb2, 0x21, 0x07, 0x94,
    0x2a, 0xb9, 0x9f, 0x0c, 0xd3, 0x40, 0x66, 0xf5, 0x89, 0x1a, 0x3c, 0xaf,
    0x70, 0xe3, 0xc5, 0x56, 0xe8, 0x7b, 0x5d, 0xce, 0x11, 0x82, 0xa4, 0x37,
    0x72, 0xe1, 0xc7, 0x54, 0x8b, 0x18, 0x3e, 0xad, 0x13, 0x80, 0xa6, 0x35,
    0xea, 0x79, 0x5f, 0xcc, 0xb0, 0x23, 0x05, 0x96, 0x49, 0xda, 0xfc, 0x6f,
    0xd1, 0x42, 0x64, 0xf7, 0x28, 0xbb, 0x9d, 0x0e, 0x65, 0xf6, 0xd0, 0x43,
    0x9c, 0x0f, 0x29, 0xba, 0x04, 0x97, 0xb1, 0x22, 0xfd, 0x6e, 0x48, 0xdb,
    0xa7, 0x34, 0x12, 0x81, 0x5e, 0xcd, 0xeb, 0x78, 0xc6, 0x55, 0x73, 0xe0,
    0x3f, 0xac, 0x8a, 0x19 ]

def crc8P93Next (init data : UInt8) : UInt8 := lookup.getD (init ^^^ data).toNat 0

def crc8P93N (init : UInt8) (data : List UInt8) : UInt8 := data.foldl crc8P93Next init

/-- The loop of `crc8_p93_n`, for at most the given number of turns. -/
def crc8P93Loop (data : Nat → UInt8) (n : UInt8) : (turns : Nat) → (i crc : UInt8) → Option UInt8
  | 0, _, _ => none
  | turns + 1, i, crc =>
    if i < n then crc8P93Loop data n turns (i + 1) (crc8P93Next crc (data i.toNat)) else some crc

def crc8P93_2b (data1 data2 : UInt8) : UInt8 := crc8P93Next (crc8P93Next 0 data1) data2

def crc8P93_3b (data1 data2 data3 : UInt8) : UInt8 :=
  crc8P93Next (crc8P93Next (crc8P93Next 0 data1) data2) data3

end Vender.Firmware
