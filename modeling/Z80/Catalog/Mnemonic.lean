import Z80.Text.Fold

/-!
# Mnemonics

The first word of every instruction, undocumented spellings included.

## Main definitions

* `Z80.Mnemonic` — the mnemonics, with `Z80.Mnemonic.name`.
* `Z80.Mnemonic.ofText?` — the mnemonic that a word spells, in any case.
-/

namespace Z80

/-- The first words of instructions. -/
inductive Mnemonic where
  | adc | add | and | bit | call | ccf | cp | cpd | cpdr | cpi | cpir | cpl | daa | dec | di
  | djnz | ei | ex | exx | halt | im | in_ | inc | ind | indr | ini | inir | jp | jr | ld | ldd
  | lddr | ldi | ldir | neg | nop | or | otdr | otir | out | outd | outi | pop | push | res | ret
  | reti | retn | rl | rla | rlc | rlca | rld | rr | rra | rrc | rrca | rrd | rst | sbc | scf
  | set | sl1 | sla | sll | sra | srl | sub | xor
  deriving DecidableEq, Repr

namespace Mnemonic

/-- The spelling of a mnemonic, in lower case. -/
def name : Mnemonic → String
  | adc => "adc"
  | add => "add"
  | and => "and"
  | bit => "bit"
  | call => "call"
  | ccf => "ccf"
  | cp => "cp"
  | cpd => "cpd"
  | cpdr => "cpdr"
  | cpi => "cpi"
  | cpir => "cpir"
  | cpl => "cpl"
  | daa => "daa"
  | dec => "dec"
  | di => "di"
  | djnz => "djnz"
  | ei => "ei"
  | ex => "ex"
  | exx => "exx"
  | halt => "halt"
  | im => "im"
  | in_ => "in"
  | inc => "inc"
  | ind => "ind"
  | indr => "indr"
  | ini => "ini"
  | inir => "inir"
  | jp => "jp"
  | jr => "jr"
  | ld => "ld"
  | ldd => "ldd"
  | lddr => "lddr"
  | ldi => "ldi"
  | ldir => "ldir"
  | neg => "neg"
  | nop => "nop"
  | or => "or"
  | otdr => "otdr"
  | otir => "otir"
  | out => "out"
  | outd => "outd"
  | outi => "outi"
  | pop => "pop"
  | push => "push"
  | res => "res"
  | ret => "ret"
  | reti => "reti"
  | retn => "retn"
  | rl => "rl"
  | rla => "rla"
  | rlc => "rlc"
  | rlca => "rlca"
  | rld => "rld"
  | rr => "rr"
  | rra => "rra"
  | rrc => "rrc"
  | rrca => "rrca"
  | rrd => "rrd"
  | rst => "rst"
  | sbc => "sbc"
  | scf => "scf"
  | set => "set"
  | sl1 => "sl1"
  | sla => "sla"
  | sll => "sll"
  | sra => "sra"
  | srl => "srl"
  | sub => "sub"
  | xor => "xor"

/-- All mnemonics. -/
def all : List Mnemonic :=
  [adc, add, and, bit, call, ccf, cp, cpd, cpdr, cpi, cpir, cpl, daa, dec, di, djnz, ei, ex, exx,
    halt, im, in_, inc, ind, indr, ini, inir, jp, jr, ld, ldd, lddr, ldi, ldir, neg, nop, or,
    otdr, otir, out, outd, outi, pop, push, res, ret, reti, retn, rl, rla, rlc, rlca, rld, rr,
    rra, rrc, rrca, rrd, rst, sbc, scf, set, sl1, sla, sll, sra, srl, sub, xor]

/-- The mnemonic that a word spells, whatever the case of its letters. -/
def ofText? (word : String) : Option Mnemonic :=
  let folded := Text.lower word
  all.find? fun mnemonic => mnemonic.name == folded

end Mnemonic

end Z80
