/-! Operator kinds. The tag of a kind is the first entry of its key vectors and is never reused; kinds of
one family share a block of a hundred tags. -/
namespace DataflowCost

inductive Kind where
  | add | sub | mul | div | pow | max | min | equal | greater | greaterEqual | less
  | lessEqual | and | or | xor | mseLoss | select | relu | gelu | silu | sigmoid | hardSigmoid
  | hardSwish | tanh | abs | neg | sign | not | sqrt | exp | erf | sin | cos | tan | asin
  | acos | atan | sinh | cosh | asinh | acosh | atanh | ceil | floor | round | reciprocal
  | softplus | clip | hardtanh | fill | l2Loss | cast | shape | prelu | leakyRelu | log | elu
  | reluBackward | sigmoidBackward | tanhBackward | dropout | matMul | gbmm | g2bmm | conv
  | conv3d | convTranspose | convTransposeNhwc | convBackwardFilter | maxPool | averagePool
  | reduceSum | reduceMean | reduceMax | reduceMin | reduceProd | softmax | layerNorm
  | rmsNorm | batchNorm | instanceNorm | lrn | reshape | flatten | identity | squeeze
  | unsqueeze | transpose | depthToSpace | expand | concat | split | slice | pad | extend
  | gather | gatherElements | resize | attentionKvCache | rope | det | allReduceSum
  | allReduceProd | allReduceMin | allReduceMax | allReduceAvg | allGather | broadcast | send
  | recv
deriving DecidableEq, Repr

namespace Kind

def all : List Kind :=
  [.add, .sub, .mul, .div, .pow, .max, .min, .equal, .greater, .greaterEqual, .less,
    .lessEqual, .and, .or, .xor, .mseLoss, .select, .relu, .gelu, .silu, .sigmoid,
    .hardSigmoid, .hardSwish, .tanh, .abs, .neg, .sign, .not, .sqrt, .exp, .erf, .sin, .cos,
    .tan, .asin, .acos, .atan, .sinh, .cosh, .asinh, .acosh, .atanh, .ceil, .floor, .round,
    .reciprocal, .softplus, .clip, .hardtanh, .fill, .l2Loss, .cast, .shape, .prelu,
    .leakyRelu, .log, .elu, .reluBackward, .sigmoidBackward, .tanhBackward, .dropout, .matMul,
    .gbmm, .g2bmm, .conv, .conv3d, .convTranspose, .convTransposeNhwc, .convBackwardFilter,
    .maxPool, .averagePool, .reduceSum, .reduceMean, .reduceMax, .reduceMin, .reduceProd,
    .softmax, .layerNorm, .rmsNorm, .batchNorm, .instanceNorm, .lrn, .reshape, .flatten,
    .identity, .squeeze, .unsqueeze, .transpose, .depthToSpace, .expand, .concat, .split,
    .slice, .pad, .extend, .gather, .gatherElements, .resize, .attentionKvCache, .rope, .det,
    .allReduceSum, .allReduceProd, .allReduceMin, .allReduceMax, .allReduceAvg, .allGather,
    .broadcast, .send, .recv]

def tag : Kind → Int
  | .add => 1
  | .sub => 2
  | .mul => 3
  | .div => 4
  | .pow => 5
  | .max => 6
  | .min => 7
  | .equal => 8
  | .greater => 9
  | .greaterEqual => 10
  | .less => 11
  | .lessEqual => 12
  | .and => 13
  | .or => 14
  | .xor => 15
  | .mseLoss => 20
  | .select => 21
  | .relu => 100
  | .gelu => 101
  | .silu => 102
  | .sigmoid => 103
  | .hardSigmoid => 104
  | .hardSwish => 105
  | .tanh => 106
  | .abs => 107
  | .neg => 108
  | .sign => 109
  | .not => 110
  | .sqrt => 111
  | .exp => 112
  | .erf => 113
  | .sin => 114
  | .cos => 115
  | .tan => 116
  | .asin => 117
  | .acos => 118
  | .atan => 119
  | .sinh => 120
  | .cosh => 121
  | .asinh => 122
  | .acosh => 123
  | .atanh => 124
  | .ceil => 125
  | .floor => 126
  | .round => 127
  | .reciprocal => 128
  | .softplus => 129
  | .clip => 140
  | .hardtanh => 141
  | .fill => 142
  | .l2Loss => 143
  | .cast => 144
  | .shape => 145
  | .prelu => 146
  | .leakyRelu => 147
  | .log => 148
  | .elu => 149
  | .reluBackward => 150
  | .sigmoidBackward => 151
  | .tanhBackward => 152
  | .dropout => 153
  | .matMul => 200
  | .gbmm => 201
  | .g2bmm => 202
  | .conv => 300
  | .conv3d => 301
  | .convTranspose => 302
  | .convTransposeNhwc => 303
  | .convBackwardFilter => 304
  | .maxPool => 310
  | .averagePool => 311
  | .reduceSum => 400
  | .reduceMean => 401
  | .reduceMax => 402
  | .reduceMin => 403
  | .reduceProd => 404
  | .softmax => 410
  | .layerNorm => 411
  | .rmsNorm => 412
  | .batchNorm => 413
  | .instanceNorm => 414
  | .lrn => 415
  | .reshape => 500
  | .flatten => 501
  | .identity => 502
  | .squeeze => 503
  | .unsqueeze => 504
  | .transpose => 505
  | .depthToSpace => 506
  | .expand => 507
  | .concat => 508
  | .split => 509
  | .slice => 510
  | .pad => 511
  | .extend => 512
  | .gather => 513
  | .gatherElements => 514
  | .resize => 515
  | .attentionKvCache => 600
  | .rope => 601
  | .det => 602
  | .allReduceSum => 700
  | .allReduceProd => 701
  | .allReduceMin => 702
  | .allReduceMax => 703
  | .allReduceAvg => 704
  | .allGather => 705
  | .broadcast => 706
  | .send => 707
  | .recv => 708

def ofTag? (tag : Int) : Option Kind := all.find? (·.tag == tag)

/-- The name shown in texts and messages. -/
def name : Kind → String
  | .add => "Add"
  | .sub => "Sub"
  | .mul => "Mul"
  | .div => "Div"
  | .pow => "Pow"
  | .max => "Max"
  | .min => "Min"
  | .equal => "Equal"
  | .greater => "Greater"
  | .greaterEqual => "GreaterEqual"
  | .less => "Less"
  | .lessEqual => "LessEqual"
  | .and => "And"
  | .or => "Or"
  | .xor => "Xor"
  | .mseLoss => "MSELoss"
  | .select => "Where"
  | .relu => "Relu"
  | .gelu => "Gelu"
  | .silu => "Silu"
  | .sigmoid => "Sigmoid"
  | .hardSigmoid => "HardSigmoid"
  | .hardSwish => "HardSwish"
  | .tanh => "Tanh"
  | .abs => "Abs"
  | .neg => "Neg"
  | .sign => "Sign"
  | .not => "Not"
  | .sqrt => "Sqrt"
  | .exp => "Exp"
  | .erf => "Erf"
  | .sin => "Sin"
  | .cos => "Cos"
  | .tan => "Tan"
  | .asin => "Asin"
  | .acos => "Acos"
  | .atan => "Atan"
  | .sinh => "Sinh"
  | .cosh => "Cosh"
  | .asinh => "Asinh"
  | .acosh => "Acosh"
  | .atanh => "Atanh"
  | .ceil => "Ceil"
  | .floor => "Floor"
  | .round => "Round"
  | .reciprocal => "Reciprocal"
  | .softplus => "Softplus"
  | .clip => "Clip"
  | .hardtanh => "Hardtanh"
  | .fill => "Fill"
  | .l2Loss => "L2Loss"
  | .cast => "Cast"
  | .shape => "Shape"
  | .prelu => "PRelu"
  | .leakyRelu => "LeakyRelu"
  | .log => "Log"
  | .elu => "Elu"
  | .reluBackward => "ReluBackward"
  | .sigmoidBackward => "SigmoidBackward"
  | .tanhBackward => "TanhBackward"
  | .dropout => "Dropout"
  | .matMul => "MatMul"
  | .gbmm => "GBMM"
  | .g2bmm => "G2BMM"
  | .conv => "Conv"
  | .conv3d => "Conv3d"
  | .convTranspose => "ConvTranspose"
  | .convTransposeNhwc => "ConvTransposeNHWC"
  | .convBackwardFilter => "ConvBackwardFilter"
  | .maxPool => "MaxPool"
  | .averagePool => "AveragePool"
  | .reduceSum => "ReduceSum"
  | .reduceMean => "ReduceMean"
  | .reduceMax => "ReduceMax"
  | .reduceMin => "ReduceMin"
  | .reduceProd => "ReduceProd"
  | .softmax => "Softmax"
  | .layerNorm => "LayerNormalization"
  | .rmsNorm => "RMSNorm"
  | .batchNorm => "BatchNormalization"
  | .instanceNorm => "InstanceNormalization"
  | .lrn => "LRN"
  | .reshape => "Reshape"
  | .flatten => "Flatten"
  | .identity => "Identity"
  | .squeeze => "Squeeze"
  | .unsqueeze => "Unsqueeze"
  | .transpose => "Transpose"
  | .depthToSpace => "DepthToSpace"
  | .expand => "Expand"
  | .concat => "Concat"
  | .split => "Split"
  | .slice => "Slice"
  | .pad => "Pad"
  | .extend => "Extend"
  | .gather => "Gather"
  | .gatherElements => "GatherElements"
  | .resize => "Resize"
  | .attentionKvCache => "AttentionKVCache"
  | .rope => "RoPE"
  | .det => "Det"
  | .allReduceSum => "AllReduceSum"
  | .allReduceProd => "AllReduceProd"
  | .allReduceMin => "AllReduceMin"
  | .allReduceMax => "AllReduceMax"
  | .allReduceAvg => "AllReduceAvg"
  | .allGather => "AllGather"
  | .broadcast => "Broadcast"
  | .send => "Send"
  | .recv => "Recv"

/-- Kinds that combine two operands element by element. -/
def isElementwise (k : Kind) : Bool := 1 ≤ k.tag && k.tag ≤ 15

/-- Kinds that map one operand element by element. -/
def isUnary (k : Kind) : Bool := 100 ≤ k.tag && k.tag ≤ 129

/-- Comparisons and logical connectives answer with truth values. -/
def isPredicate (k : Kind) : Bool := 8 ≤ k.tag && k.tag ≤ 15

theorem mem_all (k : Kind) : k ∈ all := by
  cases k <;> decide

end Kind

end DataflowCost
