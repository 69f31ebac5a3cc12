/-! The kinds of a legacy node, spelled as the legacy parser spells them. -/

namespace RubyTree

namespace Legacy

inductive Kind where
  | SCOPE | BLOCK | IF | UNLESS | CASE | CASE2 | CASE3 | WHEN | IN | WHILE | UNTIL | ITER | FOR
  | FOR_MASGN | BREAK | NEXT | REDO | RETRY | BEGIN | RESCUE | RESBODY | ENSURE | AND | OR | MASGN
  | LASGN | DASGN | GASGN | IASGN | CDECL | CVASGN | OP_ASGN1 | OP_ASGN2 | OP_ASGN_AND | OP_ASGN_OR
  | OP_CDECL | CALL | OPCALL | FCALL | VCALL | QCALL | SUPER | ZSUPER | LIST | ZLIST | HASH
  | RETURN | YIELD | LVAR | DVAR | GVAR | IVAR | CONST | CVAR | NTH_REF | BACK_REF | MATCH | MATCH2
  | MATCH3 | INTEGER | FLOAT | RATIONAL | IMAGINARY | STR | DSTR | XSTR | DXSTR | EVSTR | REGX
  | DREGX | ONCE | ARGS | ARGS_AUX | OPT_ARG | KW_ARG | POSTARG | ARGSCAT | ARGSPUSH | SPLAT
  | BLOCK_PASS | DEFN | DEFS | ALIAS | VALIAS | UNDEF | CLASS | MODULE | SCLASS | COLON2 | COLON3
  | DOT2 | DOT3 | FLIP2 | FLIP3 | SELF | NIL | TRUE | FALSE | ERRINFO | DEFINED | POSTEXE | SYM
  | DSYM | ATTRASGN | LAMBDA | ARYPTN | HSHPTN | FNDPTN | ERROR | LINE | FILE | ENCODING
deriving DecidableEq

namespace Kind

def text : Kind → String
  | SCOPE => "SCOPE"
  | BLOCK => "BLOCK"
  | IF => "IF"
  | UNLESS => "UNLESS"
  | CASE => "CASE"
  | CASE2 => "CASE2"
  | CASE3 => "CASE3"
  | WHEN => "WHEN"
  | IN => "IN"
  | WHILE => "WHILE"
  | UNTIL => "UNTIL"
  | ITER => "ITER"
  | FOR => "FOR"
  | FOR_MASGN => "FOR_MASGN"
  | BREAK => "BREAK"
  | NEXT => "NEXT"
  | REDO => "REDO"
  | RETRY => "RETRY"
  | BEGIN => "BEGIN"
  | RESCUE => "RESCUE"
  | RESBODY => "RESBODY"
  | ENSURE => "ENSURE"
  | AND => "AND"
  | OR => "OR"
  | MASGN => "MASGN"
  | LASGN => "LASGN"
  | DASGN => "DASGN"
  | GASGN => "GASGN"
  | IASGN => "IASGN"
  | CDECL => "CDECL"
  | CVASGN => "CVASGN"
  | OP_ASGN1 => "OP_ASGN1"
  | OP_ASGN2 => "OP_ASGN2"
  | OP_ASGN_AND => "OP_ASGN_AND"
  | OP_ASGN_OR => "OP_ASGN_OR"
  | OP_CDECL => "OP_CDECL"
  | CALL => "CALL"
  | OPCALL => "OPCALL"
  | FCALL => "FCALL"
  | VCALL => "VCALL"
  | QCALL => "QCALL"
  | SUPER => "SUPER"
  | ZSUPER => "ZSUPER"
  | LIST => "LIST"
  | ZLIST => "ZLIST"
  | HASH => "HASH"
  | RETURN => "RETURN"
  | YIELD => "YIELD"
  | LVAR => "LVAR"
  | DVAR => "DVAR"
  | GVAR => "GVAR"
  | IVAR => "IVAR"
  | CONST => "CONST"
  | CVAR => "CVAR"
  | NTH_REF => "NTH_REF"
  | BACK_REF => "BACK_REF"
  | MATCH => "MATCH"
  | MATCH2 => "MATCH2"
  | MATCH3 => "MATCH3"
  | INTEGER => "INTEGER"
  | FLOAT => "FLOAT"
  | RATIONAL => "RATIONAL"
  | IMAGINARY => "IMAGINARY"
  | STR => "STR"
  | DSTR => "DSTR"
  | XSTR => "XSTR"
  | DXSTR => "DXSTR"
  | EVSTR => "EVSTR"
  | REGX => "REGX"
  | DREGX => "DREGX"
  | ONCE => "ONCE"
  | ARGS => "ARGS"
  | ARGS_AUX => "ARGS_AUX"
  | OPT_ARG => "OPT_ARG"
  | KW_ARG => "KW_ARG"
  | POSTARG => "POSTARG"
  | ARGSCAT => "ARGSCAT"
  | ARGSPUSH => "ARGSPUSH"
  | SPLAT => "SPLAT"
  | BLOCK_PASS => "BLOCK_PASS"
  | DEFN => "DEFN"
  | DEFS => "DEFS"
  | ALIAS => "ALIAS"
  | VALIAS => "VALIAS"
  | UNDEF => "UNDEF"
  | CLASS => "CLASS"
  | MODULE => "MODULE"
  | SCLASS => "SCLASS"
  | COLON2 => "COLON2"
  | COLON3 => "COLON3"
  | DOT2 => "DOT2"
  | DOT3 => "DOT3"
  | FLIP2 => "FLIP2"
  | FLIP3 => "FLIP3"
  | SELF => "SELF"
  | NIL => "NIL"
  | TRUE => "TRUE"
  | FALSE => "FALSE"
  | ERRINFO => "ERRINFO"
  | DEFINED => "DEFINED"
  | POSTEXE => "POSTEXE"
  | SYM => "SYM"
  | DSYM => "DSYM"
  | ATTRASGN => "ATTRASGN"
  | LAMBDA => "LAMBDA"
  | ARYPTN => "ARYPTN"
  | HSHPTN => "HSHPTN"
  | FNDPTN => "FNDPTN"
  | ERROR => "ERROR"
  | LINE => "LINE"
  | FILE => "FILE"
  | ENCODING => "ENCODING"

def all : List Kind :=
  [.SCOPE, .BLOCK, .IF, .UNLESS, .CASE, .CASE2, .CASE3, .WHEN, .IN, .WHILE, .UNTIL, .ITER, .FOR,
   .FOR_MASGN, .BREAK, .NEXT, .REDO, .RETRY, .BEGIN, .RESCUE, .RESBODY, .ENSURE, .AND, .OR, .MASGN,
   .LASGN, .DASGN, .GASGN, .IASGN, .CDECL, .CVASGN, .OP_ASGN1, .OP_ASGN2, .OP_ASGN_AND,
   .OP_ASGN_OR, .OP_CDECL, .CALL, .OPCALL, .FCALL, .VCALL, .QCALL, .SUPER, .ZSUPER, .LIST, .ZLIST,
   .HASH, .RETURN, .YIELD, .LVAR, .DVAR, .GVAR, .IVAR, .CONST, .CVAR, .NTH_REF, .BACK_REF, .MATCH,
   .MATCH2, .MATCH3, .INTEGER, .FLOAT, .RATIONAL, .IMAGINARY, .STR, .DSTR, .XSTR, .DXSTR, .EVSTR,
   .REGX, .DREGX, .ONCE, .ARGS, .ARGS_AUX, .OPT_ARG, .KW_ARG, .POSTARG, .ARGSCAT, .ARGSPUSH,
   .SPLAT, .BLOCK_PASS, .DEFN, .DEFS, .ALIAS, .VALIAS, .UNDEF, .CLASS, .MODULE, .SCLASS, .COLON2,
   .COLON3, .DOT2, .DOT3, .FLIP2, .FLIP3, .SELF, .NIL, .TRUE, .FALSE, .ERRINFO, .DEFINED, .POSTEXE,
   .SYM, .DSYM, .ATTRASGN, .LAMBDA, .ARYPTN, .HSHPTN, .FNDPTN, .ERROR, .LINE, .FILE, .ENCODING]

def ofText? (s : String) : Option Kind := all.find? (·.text == s)

/-- Kinds that assign one variable or constant and hold its name and the value. -/
def isSimpleAssignment : Kind → Bool
  | LASGN | DASGN | IASGN | CVASGN | GASGN | CDECL => true
  | _ => false

def isCall : Kind → Bool
  | CALL | OPCALL | QCALL | FCALL | VCALL | SUPER | ZSUPER | LAMBDA => true
  | _ => false

/-- Kinds that a block literal can be attached to. -/
def takesBlock : Kind → Bool
  | CALL | OPCALL | QCALL | FCALL | VCALL | SUPER | ZSUPER => true
  | _ => false

end Kind

end Legacy

end RubyTree
