import PullAuth.Text.Encoding
import PullAuth.Text.Blank
import PullAuth.Bytes.Sha256
import PullAuth.Bytes.Base64Url
import PullAuth.Json.Reader
import PullAuth.Json.Printer
import PullAuth.Schema.Kinds
import PullAuth.Credential
import PullAuth.Toml.Reader
import PullAuth.File.Tree
import PullAuth.Token.Claims
import PullAuth.Token.Writer
import PullAuth.Registry.Match
import PullAuth.CredentialFile
import PullAuth.Registry.Load
import PullAuth.AuthFile
import PullAuth.Cluster
import PullAuth.Document
import PullAuth.Invocation
import PullAuth.Release
import PullAuth.CommandLine.Run
import PullAuth.Main
import PullAuth.Proofs.Merge.Overlay
import PullAuth.Proofs.Merge.Precedence
import PullAuth.Proofs.AuthFile.Interference
import PullAuth.Proofs.File.Keeping
import PullAuth.Proofs.AuthFile.Persist
import PullAuth.Proofs.Text.Encoded
import PullAuth.Proofs.File.Spelling
import PullAuth.Proofs.AuthFile.Outcome
import PullAuth.Proofs.Invocation.Stages
import PullAuth.Proofs.File.Names
import PullAuth.Proofs.Text.Hexadecimal
import PullAuth.Proofs.AuthFile.Writable
import PullAuth.Proofs.AuthFile.Totality
import PullAuth.Proofs.AuthFile.ReadBack
import PullAuth.Proofs.Secret.Accounting
import PullAuth.Proofs.Registry.Composition
import PullAuth.Proofs.Registry.LongestScope
import PullAuth.Proofs.AuthFile.History
import PullAuth.Proofs.Token.Reading
import PullAuth.Proofs.Token.RoundTrip
import PullAuth.Proofs.File.Places
import PullAuth.Proofs.Bytes.Base64Url
import PullAuth.Proofs.Credential.RoundTrip
import PullAuth.Proofs.Merge.Stepwise
import PullAuth.Proofs.Registry.Wildcard
import PullAuth.Proofs.Registry.Specificity
import PullAuth.Proofs.File.Shape
import PullAuth.Proofs.Desk
import PullAuth.Proofs.CommandLine.Course
import PullAuth.Proofs.CommandLine.WithoutRegistries
import PullAuth.Proofs.CommandLine.Flags
import PullAuth.Proofs.CommandLine.Response
import PullAuth.Proofs.Secret.Listing
import PullAuth.Proofs.Merge.Names
import PullAuth.Proofs.CredentialFile.Acceptance
import PullAuth.Proofs.Request.Acceptance
import PullAuth.Proofs.Registry.Schemes
import PullAuth.Proofs.Registry.Reports
import PullAuth.Proofs.AuthFile.Reports
import PullAuth.Proofs.Registry.NormalForm
import PullAuth.Proofs.AuthFile.Distinct
import PullAuth.Proofs.AuthFile.Canonical
import PullAuth.Proofs.Schema.Validation
import PullAuth.Proofs.Toml.Depth
