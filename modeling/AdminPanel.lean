import AdminPanel.Html.Render
import AdminPanel.Page.Step
import AdminPanel.Proofs.Config.Respelling
import AdminPanel.Proofs.Html.Query
import AdminPanel.Proofs.Html.RoundTrip
import AdminPanel.Proofs.Json.Value
import AdminPanel.Proofs.Locale.OwnTexts
import AdminPanel.Proofs.Page.CallerText
import AdminPanel.Proofs.Page.Currency
import AdminPanel.Proofs.Page.Interleaving
import AdminPanel.Proofs.Page.Markup
import AdminPanel.Proofs.Page.Refusal
import AdminPanel.Proofs.Page.Reload
import AdminPanel.Proofs.Page.Shown
import AdminPanel.Proofs.Page.Start
import AdminPanel.Proofs.Price.Notation
import AdminPanel.Proofs.TableHead.Owner
import AdminPanel.Proofs.TableHead.Requests
import AdminPanel.Proofs.Template.Stages
import AdminPanel.Proofs.Theme.Opacity
import AdminPanel.Proofs.Widget.Markup
import AdminPanel.Proofs.Widget.PriceReading
import AdminPanel.Selection.Session
import AdminPanel.Proofs.Config.Positional
import AdminPanel.Proofs.Locale.Tag
import AdminPanel.Proofs.Locale.Leaves
import AdminPanel.Proofs.Selection.AllOrNone
import AdminPanel.Proofs.Selection.Label
import AdminPanel.Proofs.Price.Settings
import AdminPanel.Proofs.Text.Words
import AdminPanel.Proofs.Widget.Classes
import AdminPanel.Proofs.Template.InPlace
import AdminPanel.Proofs.Theme.InRange
